import Signpost.Proofs.Json.Canonical
import Signpost.Proofs.Json.RoundTrip
import Signpost.Proofs.Query.Translation

/-!
# What a filter expression depends on

Whether a document satisfies an expression is decided by what the listed fields of the expression
lead to, and by nothing else of the document.  Nor does it matter in which order the members of the
values stand that the expression compares with.  This order is all that an expression may lose on
the way through its stored form, a JSON value that it is read back from: there the members are
sorted, as everywhere in a value that has been read.

## Main definitions

* `Filter.Expr.canonical`: an expression with its values in canonical form.

## Main results

* `Filter.Expr.ofParts`: induction on an expression.
* `Filter.Expr.accepts_eq_of_fields`: the listed fields decide.
* `Filter.Expr.gives_decode`: an expression is read from its stored form.
* `Filter.Expr.accepts_canonical`: it means the same with its values in canonical form.
* `Filter.Expr.stored_form_decodes`
-/

namespace Signpost.Filter.Expr

variable {doc doc' : Json} {es es' : List Expr}

/-! ## Lists of expressions -/

/-- Induction on an expression, the parts of a conjunction or a disjunction being the members of its
list. -/
@[elab_as_elim]
theorem ofParts {motive : Expr → Prop} (all : motive .all)
    (eq : ∀ field value, motive (.eq field value)) (ne : ∀ field value, motive (.ne field value))
    (there : ∀ field, motive (.exists field))
    (and : ∀ es, (∀ e ∈ es, motive e) → motive (.and es))
    (or : ∀ es, (∀ e ∈ es, motive e) → motive (.or es))
    (not : ∀ e, motive e → motive (.not e)) (e : Expr) : motive e :=
  Expr.rec (motive_1 := motive) (motive_2 := fun es => ∀ e ∈ es, motive e) all eq ne there and or
    not nofun (fun _ _ first rest => List.forall_mem_cons.mpr ⟨first, rest⟩) e

theorem fieldsOfAll_eq_flatMap (es : List Expr) : fieldsOfAll es = es.flatMap fields := by
  induction es with
  | nil => rfl
  | cons e rest ih => rw [fieldsOfAll, ih, List.flatMap_cons]

theorem valuesOfAll_eq_flatMap (es : List Expr) : valuesOfAll es = es.flatMap values := by
  induction es with
  | nil => rfl
  | cons e rest ih => rw [valuesOfAll, ih, List.flatMap_cons]

theorem toJsons_eq_map (es : List Expr) : toJsons es = es.map toJson := by
  induction es with
  | nil => rfl
  | cons e rest ih => rw [toJsons, ih, List.map_cons]

/-- Expressions that are satisfied alike one by one are all satisfied alike. -/
theorem allAccept_eq_of_forall₂
    (h : List.Forall₂ (fun e e' => e.accepts doc = e'.accepts doc') es es') :
    allAccept doc es = allAccept doc' es' := by
  induction h with
  | nil => rfl
  | cons hfirst _ ih => rw [allAccept, allAccept, hfirst, ih]

theorem anyAccepts_eq_of_forall₂
    (h : List.Forall₂ (fun e e' => e.accepts doc = e'.accepts doc') es es') :
    anyAccepts doc es = anyAccepts doc' es' := by
  induction h with
  | nil => rfl
  | cons hfirst _ ih => rw [anyAccepts, anyAccepts, hfirst, ih]

/-! ## The listed fields -/

/-- What holds of the fields of several expressions holds of the fields of each. -/
theorem forall_fields_of_mem {P : String → Prop} (h : ∀ path ∈ fieldsOfAll es, P path) :
    ∀ e ∈ es, ∀ path ∈ e.fields, P path := by
  rw [fieldsOfAll_eq_flatMap] at h
  exact fun e he path hpath => h path (List.mem_flatMap.mpr ⟨e, he, hpath⟩)

theorem holdsValue_congr {field : String} (h : Path.find? doc field = Path.find? doc' field)
    (value : Json) : holdsValue doc field value = holdsValue doc' field value := by
  rw [holdsValue, holdsValue, h]

theorem holdsSome_congr {field : String} (h : Path.find? doc field = Path.find? doc' field) :
    holdsSome doc field = holdsSome doc' field := by
  rw [holdsSome, holdsSome, h]

/-- **The listed fields decide**.  Two documents in which each listed field leads to the same value,
or in both to none, satisfy an expression alike. -/
theorem accepts_eq_of_fields {e : Expr}
    (h : ∀ path ∈ e.fields, Path.find? doc path = Path.find? doc' path) :
    e.accepts doc = e.accepts doc' := by
  induction e using ofParts with
  | all => rfl
  | eq field value => exact holdsValue_congr (h field List.mem_cons_self) value
  | ne field value => exact congrArg (!·) (holdsValue_congr (h field List.mem_cons_self) value)
  | there field => exact holdsSome_congr (h field List.mem_cons_self)
  | and es ih =>
    have hes := forall_fields_of_mem h
    exact allAccept_eq_of_forall₂ (List.forall₂_same.mpr fun e he => ih e he (hes e he))
  | or es ih =>
    have hes := forall_fields_of_mem h
    exact anyAccepts_eq_of_forall₂ (List.forall₂_same.mpr fun e he => ih e he (hes e he))
  | not e ih => exact congrArg (!·) (ih h)

/-- Definitions that run daily, and have a stage or no title at all. -/
def dailyStaged : Expr :=
  .and [.not (.ne "trigger.cron" (.string "daily")),
    .or [.exists "stages.0", .eq "title" .null]]

/-- A definition with one stage. -/
def staged : Json :=
  .object [("stages", .array [.string "draft"]),
    ("trigger", .object [("cron", .string "daily"), ("zone", .string "UTC")])]

/-- The same definition with another stage, another owner and no time zone. -/
def restaged : Json :=
  .object [("owner", .string "ann"), ("stages", .array [.string "draft", .string "final"]),
    ("trigger", .object [("cron", .string "daily")])]

theorem accepts_eq_of_fields_restaged :
    (∀ path ∈ dailyStaged.fields, Path.find? staged path = Path.find? restaged path) ∧
      dailyStaged.accepts staged = true ∧ dailyStaged.accepts restaged = true := by
  have hfields : ∀ path ∈ dailyStaged.fields,
      Path.find? staged path = Path.find? restaged path := by
    have hlisted : dailyStaged.fields = ["trigger.cron", "stages.0", "title"] := rfl
    rw [hlisted]
    simp only [List.forall_mem_cons]
    exact ⟨rfl, rfl, rfl, nofun⟩
  have haccepts : dailyStaged.accepts staged = true := rfl
  exact ⟨hfields, haccepts, accepts_eq_of_fields hfields ▸ haccepts⟩

/-! ## Canonical values -/

mutual

/-- The expression with each of its values in canonical form. -/
def canonical : Expr → Expr
  | .all => .all
  | .eq field value => .eq field value.canonical
  | .ne field value => .ne field value.canonical
  | .exists field => .exists field
  | .and exprs => .and (canonicalAll exprs)
  | .or exprs => .or (canonicalAll exprs)
  | .not e => .not (canonical e)

/-- Several expressions with each of their values in canonical form. -/
def canonicalAll : List Expr → List Expr
  | [] => []
  | e :: rest => canonical e :: canonicalAll rest

end

theorem canonicalAll_eq_map (es : List Expr) : canonicalAll es = es.map canonical := by
  induction es with
  | nil => rfl
  | cons e rest ih => rw [canonicalAll, ih, List.map_cons]

/-- What holds of the values of several expressions holds of the values of each. -/
theorem forall_values_of_mem {P : Json → Prop} (h : ∀ v ∈ valuesOfAll es, P v) :
    ∀ e ∈ es, ∀ v ∈ e.values, P v := by
  rw [valuesOfAll_eq_flatMap] at h
  exact fun e he v hv => h v (List.mem_flatMap.mpr ⟨e, he, hv⟩)

/-- An expression whose values are in canonical form is so itself. -/
theorem canonical_eq_self {e : Expr} (h : ∀ v ∈ e.values, v.canonical = v) : e.canonical = e := by
  induction e using ofParts with
  | all | there => rfl
  | eq field value | ne field value => rw [canonical, h value List.mem_cons_self]
  | and es ih | or es ih =>
    have hes := forall_values_of_mem h
    rw [canonical, canonicalAll_eq_map, List.map_congr_left fun e he => ih e he (hes e he),
      List.map_id']
  | not e ih => rw [canonical, ih h]

theorem holdsValue_canonical {value : Json} (h : value.DistinctKeys) (doc : Json) (field : String) :
    holdsValue doc field value.canonical = holdsValue doc field value := by
  rw [holdsValue, holdsValue]
  cases Path.find? doc field with
  | none => rfl
  | some found => exact (h.alike h.reordered_canonical found).symm

/-- **An expression means the same with its values in canonical form**. -/
theorem accepts_canonical {e : Expr} (h : ∀ v ∈ e.values, v.DistinctKeys) (doc : Json) :
    e.canonical.accepts doc = e.accepts doc := by
  induction e using ofParts with
  | all | there => rfl
  | eq field value => exact holdsValue_canonical (h value List.mem_cons_self) doc field
  | ne field value =>
    exact congrArg (!·) (holdsValue_canonical (h value List.mem_cons_self) doc field)
  | and es ih =>
    have hes := forall_values_of_mem h
    rw [canonical, canonicalAll_eq_map]
    refine allAccept_eq_of_forall₂ (List.forall₂_map_left_iff.mpr ?_)
    exact List.forall₂_same.mpr fun e he => ih e he (hes e he)
  | or es ih =>
    have hes := forall_values_of_mem h
    rw [canonical, canonicalAll_eq_map]
    refine anyAccepts_eq_of_forall₂ (List.forall₂_map_left_iff.mpr ?_)
    exact List.forall₂_same.mpr fun e he => ih e he (hes e he)
  | not e ih => exact congrArg (!·) (ih h)

/-! ## Stored form -/

open Json (Decoder Draft Fields Fault)

theorem closeTag_nil {α : Type} (value : Except Fault α) :
    Decoder.closeTag [] none value = value := by
  cases value <;> rfl

theorem decodeItems_eq (ds : List Draft) : decodeItems ds = Decoder.items decode ds := by
  induction ds with
  | nil => rfl
  | cons d rest ih => rw [decodeItems, Decoder.items, ih]

/-- Lists of expressions are decoded as any lists are. -/
theorem decodeList_eq : decodeList = Decoder.list decode := by
  funext d
  cases d with
  | array ds stop =>
    cases stop with
    | none => exact congrArg (· >>= Except.ok) (decodeItems_eq ds)
    | some f => exact congrArg (· >>= fun _ => .error f) (decodeItems_eq ds)
  | null | bool | number | string | object | fault | deep => rfl

theorem gives_comparison (field : String) {value : Json} (h : value.DistinctKeys) :
    comparison.Gives (.object [("field", .string field), ("value", value)])
      (field, value.canonical) := by
  have hvalue : (Fields.required "value" Decoder.json .nil).Takes [("value", value)]
      (value.canonical, ()) := .cons h.gives_json nofun .nil
  have hfields : (Fields.required "field" .string (.required "value" .json .nil)).Takes
      [("field", .string field), ("value", value)] (field, value.canonical, ()) :=
    .cons (Decoder.reads_string field) (by simp) hvalue
  exact hfields.record.objectOnly.map fun r => (r.1, r.2.1)

theorem gives_presence (field : String) :
    presence.Gives (.object [("field", .string field)]) field := by
  have hfield : (Fields.required "field" .string .nil).Takes [("field", .string field)]
      (field, ()) := .cons (Decoder.reads_string field) nofun .nil
  exact hfield.record.objectOnly.map fun r => r.1

/-- A list of expressions is read from its stored form, where each of them is. -/
theorem gives_decodeList (h : ∀ v ∈ valuesOfAll es, v.DistinctKeys)
    (ih : ∀ e ∈ es, (∀ v ∈ e.values, v.DistinctKeys) → decode.Gives e.toJson e.canonical) :
    decodeList.Gives (.array (toJsons es)) (canonicalAll es) := by
  have hes := forall_values_of_mem h
  have heach : List.Forall₂ decode.Gives (es.map toJson) (es.map canonical) := by
    rw [List.forall₂_map_left_iff, List.forall₂_map_right_iff]
    exact List.forall₂_same.mpr fun e he => ih e he (hes e he)
  rw [decodeList_eq, toJsons_eq_map, canonicalAll_eq_map]
  exact Decoder.Gives.list heach

/-- A form with one member is read as its name says. -/
theorem gives_of_tag {name : String} {form : Json} {e : Expr} {decodeHeld : Decoder Expr}
    (h : decodeHeld.Gives form e)
    (htag : ∀ d, decode (.object [(some name, d)] none) =
      Decoder.closeTag [] none (decodeHeld d)) : decode.Gives (.object [(name, form)]) e := by
  refine ⟨.object (List.nodup_singleton _) (by simpa using h.distinct), fun hw => ?_⟩
  obtain ⟨form', rfl, hform⟩ := hw.of_single
  -- there is one member only, so that nothing follows it
  show decode (.object [(some name, form'.toDraft)] none) = _
  rw [htag, closeTag_nil, h.of_reordered hform]

/-- **An expression is read from its stored form**, with its values in canonical form. -/
theorem gives_decode {e : Expr} (h : ∀ v ∈ e.values, v.DistinctKeys) :
    decode.Gives e.toJson e.canonical := by
  induction e using ofParts with
  | all => exact ⟨.string "all", fun hw => by cases hw; rfl⟩
  | eq field value =>
    have hcompared := gives_comparison field (h value List.mem_cons_self)
    exact gives_of_tag (hcompared.map fun c => Expr.eq c.1 c.2) fun _ => rfl
  | ne field value =>
    have hcompared := gives_comparison field (h value List.mem_cons_self)
    exact gives_of_tag (hcompared.map fun c => Expr.ne c.1 c.2) fun _ => rfl
  | there field => exact gives_of_tag ((gives_presence field).map Expr.exists) fun _ => rfl
  | and es ih => exact gives_of_tag ((gives_decodeList h ih).map Expr.and) fun _ => rfl
  | or es ih => exact gives_of_tag ((gives_decodeList h ih).map Expr.or) fun _ => rfl
  | not e ih => exact gives_of_tag ((ih h).map Expr.not) fun _ => rfl

/-- **An expression is decoded from its stored form**, in whatever order the members of the form are
kept.  It is given back as it is if its values are in canonical form, and with its values in
canonical form otherwise, which the same documents satisfy. -/
theorem stored_form_decodes {e : Expr} (hdistinct : ∀ v ∈ e.values, v.DistinctKeys) {w : Json}
    (hw : e.toJson.Reordered w) :
    ((∀ v ∈ e.values, v.canonical = v) → Json.decode? decode w = some e) ∧
      Json.decode? decode w = some e.canonical ∧
      ∀ doc, e.canonical.accepts doc = e.accepts doc := by
  have hdecode := (gives_decode hdistinct).decode?_eq hw
  refine ⟨fun hcanonical => ?_, hdecode, accepts_canonical hdistinct⟩
  rw [hdecode, canonical_eq_self hcanonical]

/-- What has a title and costs so much. -/
def costing (price : Json) : Expr :=
  .and [.exists "title", .not (.or [.ne "price" price, .not .all])]

/-- Two francs. -/
def twoFrancs : Json := .object [("amount", .ofNat 2), ("currency", .string "CHF")]

/-- Two francs, the currency being written first. -/
def francsTwo : Json := .object [("currency", .string "CHF"), ("amount", .ofNat 2)]

theorem stored_form_decodes_twoFrancs :
    Json.decode? decode (costing twoFrancs).toJson = some (costing twoFrancs) ∧
      Json.decode? decode (costing francsTwo).toJson.canonical = some (costing twoFrancs) := by
  have htwo : twoFrancs.DistinctKeys := by
    refine .object (by decide) (List.forall_mem_cons.mpr ⟨.number _, ?_⟩)
    exact List.forall_mem_singleton.mpr (.string _)
  have hfrancs : francsTwo.DistinctKeys := by
    refine .object (by decide) (List.forall_mem_cons.mpr ⟨.string _, ?_⟩)
    exact List.forall_mem_singleton.mpr (.number _)
  have htwos : ∀ v ∈ (costing twoFrancs).values, v.DistinctKeys :=
    List.forall_mem_singleton.mpr htwo
  have hfrancses : ∀ v ∈ (costing francsTwo).values, v.DistinctKeys :=
    List.forall_mem_singleton.mpr hfrancs
  have hsorted : (costing francsTwo).canonical = costing twoFrancs := rfl
  constructor
  · refine (stored_form_decodes htwos (gives_decode htwos).distinct.reordered).1 ?_
    exact List.forall_mem_singleton.mpr rfl
  · rw [← hsorted]
    have hreordered := (gives_decode hfrancses).distinct.reordered_canonical
    exact (stored_form_decodes hfrancses hreordered).2.1

end Signpost.Filter.Expr
