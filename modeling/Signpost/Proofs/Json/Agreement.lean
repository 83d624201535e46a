import Mathlib.Data.List.Perm.Subperm
import Mathlib.Data.List.Rotate
import Signpost.Proofs.Binary64
import Signpost.Proofs.Json.Canonical

/-!
# Equality by value

Equality by value looks at its two sides in different ways: numbers are compared in the first of
three representations that both have, and of two objects only the members of the left one are looked
up.  It treats both sides alike nevertheless.  Integers agree only with themselves, whichever
representation they are compared in, and two objects of equally many members, those of one of which
are all found in the other, have the same names.

Where all numbers are integers, values agree just if they have one canonical form.  A binary64
number may agree with several integers, since it is compared with what they are rounded to.

## Main definitions

* `Json.Integral`: a value whose numbers are integers.

## Main results

* `Json.Number.agrees_integer_iff`: integers agree only with themselves.
* `Json.agrees_object_iff`: objects agree if they have the same names and agree under each.
* `Json.rel_of_agrees`: induction on two values that agree.
* `Json.agrees_self`, `Json.agrees_comm`
* `Json.agrees_iff_canonical_eq`: between values whose numbers are integers, agreement is equality.
* `Json.agrees_lawful`
-/

namespace Signpost.Json

/-! ## Numbers -/

namespace Number

variable {i j : Int} {hi : -0x8000000000000000 ≤ i ∧ i < 0x10000000000000000}
  {hj : -0x8000000000000000 ≤ j ∧ j < 0x10000000000000000}

/-- A binary64 number is compared as one. -/
theorem agrees_real_right (m : Number) (x : Binary64) :
    m.agrees (.real x) = m.toReal.sameValue x := by
  rw [agrees]
  cases m.signed? <;> cases m.unsigned? <;> rfl

/-- Two numbers are compared in the same representation in both orders. -/
theorem agrees_comm (m n : Number) : m.agrees n = n.agrees m := by
  rw [agrees, agrees, Binary64.sameValue_comm]
  cases m.signed? <;> cases n.signed? <;> cases m.unsigned? <;> cases n.unsigned? <;>
    first | rfl | exact BEq.comm

theorem agrees_integer_iff_of_le (hle : i ≤ j) :
    (integer i hi).agrees (integer j hj) = true ↔ i = j := by
  rw [agrees]
  by_cases hsigned : j < 0x8000000000000000
  · have hi' : signed? (integer i hi) = some i := if_pos (Int.lt_of_le_of_lt hle hsigned)
    have hj' : signed? (integer j hj) = some j := if_pos hsigned
    rw [hi', hj']
    exact beq_iff_eq
  -- the larger one is no signed integer, so that it does not matter whether the other one is
  · have hlarge : signed? (integer j hj) = none := if_neg hsigned
    have hj' : unsigned? (integer j hj) = some j.toNat := if_pos (by omega)
    rw [hlarge, hj']
    by_cases hnonneg : 0 ≤ i
    · have hi' : unsigned? (integer i hi) = some i.toNat := if_pos hnonneg
      have hnat : (i.toNat == j.toNat) = true ↔ i = j := by
        rw [beq_iff_eq]
        omega
      rw [hi']
      cases signed? (integer i hi) <;> exact hnat
    -- no representation but the binary64 numbers has both, and these have different signs
    · have hi' : unsigned? (integer i hi) = none := if_neg hnonneg
      have hapart : (Binary64.ofInt i).sameValue (Binary64.ofInt j) = false := by
        apply Binary64.sameValue_ofInt_of_neg_of_pos <;> omega
      rw [hi']
      cases signed? (integer i hi) <;>
        exact iff_of_false (Bool.eq_false_iff.mp hapart) (by omega)

/-- **Integers agree only with themselves**, over the whole ranges of signed and unsigned ones. -/
theorem agrees_integer_iff : (integer i hi).agrees (integer j hj) = true ↔ i = j := by
  rcases Int.le_total i j with hle | hle
  · exact agrees_integer_iff_of_le hle
  · rw [agrees_comm, agrees_integer_iff_of_le hle, eq_comm]

theorem agrees_self (n : Number) : n.agrees n = true := by
  cases n with
  | integer i fits => exact agrees_integer_iff.mpr rfl
  | real x => rw [agrees_real_right, toReal, Binary64.sameValue_self]

end Number

/-! ## Items and members -/

variable {xs ys : List (String × Json)}

theorem agreeItems_iff {xs ys : List Json} :
    agreeItems xs ys = true ↔ List.Forall₂ (fun x y => x.agrees y = true) xs ys := by
  induction xs generalizing ys with
  | nil => cases ys <;> simp [agreeItems]
  | cons x rest ih =>
    cases ys with
    | nil => simp [agreeItems]
    | cons y rest' => rw [agreeItems, Bool.and_eq_true, ih, List.forall₂_cons]

/-- Among members with distinct names, what is found under a name is the member that has it. -/
theorem lookup_eq_some_iff (hdistinct : (xs.map Prod.fst).Nodup) {name : String} {v : Json} :
    lookup name xs = some v ↔ (name, v) ∈ xs := by
  constructor
  · exact mem_of_lookup
  · intro hv
    have hthere : lookup name xs ≠ none := fun hnone =>
      lookup_eq_none_iff.mp hnone (List.mem_map_of_mem (f := Prod.fst) hv)
    obtain ⟨w, hw⟩ := Option.ne_none_iff_exists'.mp hthere
    rw [hw, eq_of_mem_members hdistinct hv (mem_of_lookup hw)]

theorem agreeMembers_cons (m : String × Json) (rest ys : List (String × Json)) :
    agreeMembers (m :: rest) ys = ((lookup m.1 ys).any m.2.agrees && agreeMembers rest ys) := by
  rw [agreeMembers]
  cases lookup m.1 ys <;> rfl

/-- Each member on the left is looked up on the right. -/
theorem agreeMembers_iff : agreeMembers xs ys = true ↔
    ∀ m ∈ xs, ∃ w, lookup m.1 ys = some w ∧ m.2.agrees w = true := by
  induction xs with
  | nil => simp [agreeMembers]
  | cons m rest ih =>
    rw [agreeMembers_cons, Bool.and_eq_true, Option.any_eq_true, ih, List.forall_mem_cons]

/-- **Objects agree if they have the same names and agree under each**.  The left one has no name
that the right one lacks; as it has equally many, it has all of them. -/
theorem agrees_object_iff (hx : (xs.map Prod.fst).Nodup) (hy : (ys.map Prod.fst).Nodup) :
    (object xs).agrees (object ys) = true ↔ (xs.map Prod.fst).Perm (ys.map Prod.fst) ∧
      ∀ name v w, (name, v) ∈ xs → (name, w) ∈ ys → v.agrees w = true := by
  rw [agrees, Bool.and_eq_true, beq_iff_eq, agreeMembers_iff]
  constructor
  · rintro ⟨hlength, hfound⟩
    constructor
    · have hsubset : xs.map Prod.fst ⊆ ys.map Prod.fst := by
        intro name hname
        obtain ⟨m, hm, rfl⟩ := List.mem_map.mp hname
        obtain ⟨w, hw, -⟩ := hfound m hm
        exact List.mem_map.mpr ⟨_, mem_of_lookup hw, rfl⟩
      apply (List.subperm_of_subset hx hsubset).perm_of_length_le
      simpa using Nat.le_of_eq hlength.symm
    · intro name v w hv hw
      obtain ⟨w', hw', hagrees⟩ := hfound (name, v) hv
      rwa [eq_of_mem_members hy hw (mem_of_lookup hw')]
  · rintro ⟨hnames, heach⟩
    constructor
    · simpa using hnames.length_eq
    · rintro ⟨name, v⟩ hv
      have hname := hnames.mem_iff.mp (List.mem_map_of_mem (f := Prod.fst) hv)
      obtain ⟨⟨_, w⟩, hw, rfl⟩ := List.mem_map.mp hname
      exact ⟨w, (lookup_eq_some_iff hy).mpr hw, heach _ v w hv hw⟩

/-! ## Values -/

variable {u v w : Json}

/-- Induction on two values that agree: what holds of numbers that agree, and passes from items to
arrays and from members to objects, holds of the values. -/
theorem rel_of_agrees {R : Json → Json → Prop} (null : R .null .null)
    (bool : ∀ b, R (.bool b) (.bool b)) (string : ∀ s, R (.string s) (.string s))
    (number : ∀ {m n : Number}, m.agrees n = true → R (.number m) (.number n))
    (array : ∀ {items items' : List Json}, List.Forall₂ R items items' →
      R (.array items) (.array items'))
    (object : ∀ {xs ys : List (String × Json)}, (xs.map Prod.fst).Nodup → (ys.map Prod.fst).Nodup →
      (xs.map Prod.fst).Perm (ys.map Prod.fst) →
      (∀ name v w, (name, v) ∈ xs → (name, w) ∈ ys → R v w) → R (.object xs) (.object ys))
    (hv : v.DistinctKeys) (hw : w.DistinctKeys) (h : v.agrees w = true) : R v w := by
  induction hv generalizing w with
  | null =>
    cases w with
    | null => exact null
    | bool | number | string | array | object => cases h
  | bool b =>
    cases w with
    | bool b' =>
      obtain rfl := eq_of_beq h
      exact bool b
    | null | number | string | array | object => cases h
  | number m =>
    cases w with
    | number n => exact number h
    | null | bool | string | array | object => cases h
  | string s =>
    cases w with
    | string s' =>
      obtain rfl := eq_of_beq h
      exact string s
    | null | bool | number | array | object => cases h
  | array each ih =>
    cases w with
    | array items' =>
      cases hw with
      | array each' =>
        exact array (forall₂_imp_of_mem (agreeItems_iff.mp h) fun v hv w hw => ih v hv (each' w hw))
    | null | bool | number | string | object => cases h
  | object distinct each ih =>
    cases w with
    | object ys =>
      cases hw with
      | object distinct' each' =>
        obtain ⟨hnames, hagrees⟩ := (agrees_object_iff distinct distinct').mp h
        exact object distinct distinct' hnames fun name v w hv hw =>
          ih (name, v) hv (each' (name, w) hw) (hagrees name v w hv hw)
    | null | bool | number | string | array => cases h

theorem agrees_self (hv : v.DistinctKeys) : v.agrees v = true := by
  induction hv with
  | null => rfl
  | bool b => exact beq_self_eq_true b
  | number n => exact n.agrees_self
  | string s => exact beq_self_eq_true s
  | array _ ih => exact agreeItems_iff.mpr (List.forall₂_same.mpr ih)
  | object distinct _ ih =>
    apply (agrees_object_iff distinct distinct).mpr
    refine ⟨.refl _, fun name v w hv hw => ?_⟩
    obtain rfl := eq_of_mem_members distinct hv hw
    exact ih _ hv

theorem agrees_symm (hv : v.DistinctKeys) (hw : w.DistinctKeys) (h : v.agrees w = true) :
    w.agrees v = true := by
  refine rel_of_agrees (R := fun v w => w.agrees v = true) rfl beq_self_eq_true beq_self_eq_true
    (fun {m n} hagrees => ?_) (fun heach => ?_) (fun hx hy hnames heach => ?_) hv hw h
  · exact (n.agrees_comm m).trans hagrees
  · exact agreeItems_iff.mpr heach.flip
  · exact (agrees_object_iff hy hx).mpr
      ⟨hnames.symm, fun name w v hw hv => heach name v w hv hw⟩

/-- **The order of the two sides does not matter**. -/
theorem agrees_comm (hv : v.DistinctKeys) (hw : w.DistinctKeys) : v.agrees w = w.agrees v :=
  Bool.eq_iff_iff.mpr ⟨agrees_symm hv hw, agrees_symm hw hv⟩

/-! ## Values whose numbers are integers -/

/-- Every number of the value is an integer. -/
inductive Integral : Json → Prop
  | null : Integral .null
  | bool (b : Bool) : Integral (.bool b)
  | integer (i : Int) (fits : -0x8000000000000000 ≤ i ∧ i < 0x10000000000000000) :
      Integral (.number (.integer i fits))
  | string (s : String) : Integral (.string s)
  | array {items : List Json} (each : ∀ v ∈ items, Integral v) : Integral (.array items)
  | object {members : List (String × Json)} (each : ∀ m ∈ members, Integral m.2) :
      Integral (.object members)

/-- Values that agree are the same up to the order of members, if all numbers are integers. -/
theorem reordered_of_agrees (hv : v.DistinctKeys) (hw : w.DistinctKeys) (hvi : v.Integral)
    (hwi : w.Integral) (h : v.agrees w = true) : v.Reordered w := by
  refine rel_of_agrees (R := fun v w => v.Integral → w.Integral → v.Reordered w)
    (fun _ _ => .null) (fun b _ _ => .bool b) (fun s _ _ => .string s)
    (fun hagrees hm hn => ?_) (fun heach hv hw => ?_) (fun _ _ hnames heach hv hw => ?_)
    hv hw h hvi hwi
  · cases hm with
    | integer i fits =>
      cases hn with
      | integer j fits' =>
        obtain rfl := Number.agrees_integer_iff.mp hagrees
        exact .number _
  · cases hv with
    | array hitems =>
      cases hw with
      | array hitems' =>
        exact .array (forall₂_imp_of_mem heach fun v hv w hw hvw =>
          hvw (hitems v hv) (hitems' w hw))
  · cases hv with
    | object hmembers =>
      cases hw with
      | object hmembers' =>
        exact .object hnames fun {name v w} hv hw =>
          heach name v w hv hw (hmembers _ hv) (hmembers' _ hw)

/-- **Agreement is equality between values whose numbers are integers**. -/
theorem agrees_iff_canonical_eq (hv : v.DistinctKeys) (hw : w.DistinctKeys) (hvi : v.Integral)
    (hwi : w.Integral) : v.agrees w = true ↔ v.canonical = w.canonical := by
  constructor
  · intro h
    exact hv.canonical_eq (reordered_of_agrees hv hw hvi hwi h)
  · intro h
    calc v.agrees w = v.agrees w.canonical := hw.alike hw.reordered_canonical v
      _ = v.agrees v.canonical := by rw [h]
      _ = v.agrees v := (hv.alike hv.reordered_canonical v).symm
      _ = true := agrees_self hv

/-- **Equality by value is lawful**.  Every value agrees with itself, and two values agree in both
orders; in particular, of two objects of one size it does not matter which one's members are looked
up in the other.  Integers of all ranges agree only if they are equal, and between values whose
numbers are integers agreement is transitive. -/
theorem agrees_lawful (hu : u.DistinctKeys) (hv : v.DistinctKeys) (hw : w.DistinctKeys) :
    v.agrees v = true ∧ v.agrees w = w.agrees v ∧
      (∀ xs ys, v = .object xs → w = .object ys → xs.length = ys.length →
        agreeMembers xs ys = agreeMembers ys xs) ∧
      (∀ i j fits fits',
        (number (.integer i fits)).agrees (number (.integer j fits')) = true ↔ i = j) ∧
      (u.Integral → v.Integral → w.Integral → u.agrees v = true → v.agrees w = true →
        u.agrees w = true) := by
  refine ⟨agrees_self hv, agrees_comm hv hw, ?_, fun i j fits fits' => ?_, ?_⟩
  · rintro xs ys rfl rfl hlength
    have hcomm := agrees_comm hv hw
    rwa [agrees, agrees, hlength, beq_self_eq_true, Bool.true_and, Bool.true_and] at hcomm
  · exact Number.agrees_integer_iff
  · intro hui hvi hwi huv hvw
    rw [agrees_iff_canonical_eq hu hv hui hvi] at huv
    rw [agrees_iff_canonical_eq hv hw hvi hwi] at hvw
    exact (agrees_iff_canonical_eq hu hw hui hwi).mpr (huv.trans hvw)

/-- The ends of the ranges of integers. -/
def ends : List (String × Json) :=
  [("least", .number (.integer (-0x8000000000000000) (by decide))),
    ("greatest", .ofNat 0xFFFFFFFFFFFFFFFF),
    ("between", .array [.ofNat 0x7FFFFFFFFFFFFFFF, .ofNat 0x8000000000000000, .null])]

/-- The ends of the ranges, written from some one of them on. -/
def endsFrom (k : Nat) : Json := .object (ends.rotate k)

theorem distinctKeys_endsFrom (k : Nat) : (endsFrom k).DistinctKeys := by
  refine .object ?_ fun m hm => ?_
  · rw [List.map_rotate, List.nodup_rotate]
    decide
  · have heach : ∀ m ∈ ends, m.2.DistinctKeys := by
      simp only [ends, List.forall_mem_cons]
      refine ⟨.number _, .number _, .array ?_, nofun⟩
      simp only [List.forall_mem_cons]
      exact ⟨.number _, .number _, .null, nofun⟩
    exact heach m (List.mem_rotate.mp hm)

theorem integral_endsFrom (k : Nat) : (endsFrom k).Integral := by
  refine .object fun m hm => ?_
  have heach : ∀ m ∈ ends, m.2.Integral := by
    simp only [ends, List.forall_mem_cons]
    refine ⟨.integer _ _, .integer _ _, .array ?_, nofun⟩
    simp only [List.forall_mem_cons]
    exact ⟨.integer _ _, .integer _ _, .null, nofun⟩
  exact heach m (List.mem_rotate.mp hm)

theorem agrees_lawful_ends :
    (endsFrom 1).agrees (endsFrom 1) = true ∧
      (endsFrom 1).agrees (endsFrom 2) = (endsFrom 2).agrees (endsFrom 1) ∧
      agreeMembers (ends.rotate 1) (ends.rotate 2) = agreeMembers (ends.rotate 2) (ends.rotate 1) ∧
      (ofNat 0x7FFFFFFFFFFFFFFF).agrees (ofNat 0x8000000000000000) ≠ true ∧
      (endsFrom 0).agrees (endsFrom 2) = true := by
  obtain ⟨hself, hcomm, hmembers, hintegers, htrans⟩ := agrees_lawful (distinctKeys_endsFrom 0)
    (distinctKeys_endsFrom 1) (distinctKeys_endsFrom 2)
  refine ⟨hself, hcomm, hmembers _ _ rfl rfl rfl, ?_, ?_⟩
  · exact (hintegers 0x7FFFFFFFFFFFFFFF 0x8000000000000000 _ _).not.mpr (by decide)
  · exact htrans (integral_endsFrom 0) (integral_endsFrom 1) (integral_endsFrom 2) rfl rfl

/-- A binary64 number may agree with two integers, which do not agree. -/
example : (ofNat 0x20000000000001).agrees (.number (.real (.ofInt 0x20000000000000))) = true ∧
    Json.agrees (.number (.real (.ofInt 0x20000000000000))) (ofNat 0x20000000000000) = true ∧
    (ofNat 0x20000000000001).agrees (ofNat 0x20000000000000) = false := by
  decide +kernel

end Signpost.Json
