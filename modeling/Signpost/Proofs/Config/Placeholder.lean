import Mathlib.Data.List.Basic
import Signpost.Config.Placeholder

/-!
# Texts with placeholders, part by part

A text is read from left to right in parts: a placeholder up to the next closing brace, a character
that begins none, or, at the end, a placeholder that no brace closes.  Every text has one reading,
and its parts put together are the text again.  Expansion goes by the same reading and replaces one
part at a time, so a value that is inserted is never read itself.

What it puts in the place of a part is a value that is known, or else the part as it is written,
with one exception: a placeholder that the text does not close is replaced as if a brace closed it.
So a text is left alone, nothing being known, just if each of its openings has a closing brace
somewhere behind it.

## Main definitions

* `Placeholder.Part`, `Part.written`, `Part.filled`
* `Placeholder.Reads`: a text is read in some parts.
* `Placeholder.Unclosed`: a text opens a placeholder and does not close it.

## Main results

* `Placeholder.exists_reads`, `Placeholder.Reads.unique`
* `Placeholder.Reads.expandChars_eq`: a text is expanded part by part.
* `Placeholder.Reads.unclosed_iff`: which texts end in a placeholder that no brace closes.
* `Placeholder.expand_part_by_part`
-/

namespace Signpost.Placeholder

variable {lookup : String → Option String} {name cs rest : List Char} {c : Char}

/-! ## Parts -/

/-- A part of a text. -/
inductive Part where
  /-- A character that begins no placeholder. -/
  | plain (c : Char)
  /-- A placeholder with the brace that closes it. -/
  | closed (name : List Char)
  /-- A placeholder that runs to the end of the text. -/
  | unclosed (name : List Char)
deriving DecidableEq

/-- The value of a name, if it is known. -/
def value? (lookup : String → Option String) (name : List Char) : Option (List Char) :=
  (lookup (String.ofList name)).map String.toList

namespace Part

/-- A part as it stands in the text. -/
def written : Part → List Char
  | .plain c => [c]
  | .closed name => '$' :: '{' :: name ++ ['}']
  | .unclosed name => '$' :: '{' :: name

/-- What expansion puts in the place of a part: a placeholder that runs to the end of the text is
treated as if it were closed. -/
def filled (lookup : String → Option String) : Part → List Char
  | .plain c => [c]
  | .closed name | .unclosed name => (value? lookup name).getD (closed name).written

/-- A part in which only a closed placeholder of a known name is replaced. -/
def filledIfClosed (lookup : String → Option String) : Part → List Char
  | .closed name => (value? lookup name).getD (closed name).written
  | part => part.written

theorem filled_eq_filledIfClosed {part : Part} (h : ∀ name, part ≠ .unclosed name) :
    part.filled lookup = part.filledIfClosed lookup := by
  cases part with
  | plain c => rfl
  | closed name => rfl
  | unclosed name => exact absurd rfl (h name)

end Part

theorem replacement_eq (lookup : String → Option String) (name : List Char) :
    replacement lookup name = (value? lookup name).getD (Part.closed name).written := by
  rw [replacement, value?]
  cases lookup (String.ofList name) with
  | none => rfl
  | some value => rfl

/-- A text is read from left to right in some parts. -/
inductive Reads : List Char → List Part → Prop
  | nil : Reads [] []
  | closed {name rest : List Char} {parts : List Part} (hname : '}' ∉ name)
      (hrest : Reads rest parts) :
      Reads ('$' :: '{' :: (name ++ '}' :: rest)) (.closed name :: parts)
  | unclosed {name : List Char} (hname : '}' ∉ name) :
      Reads ('$' :: '{' :: name) [.unclosed name]
  | plain {c : Char} {rest : List Char} {parts : List Part}
      (hplain : ∀ tail, c :: rest ≠ '$' :: '{' :: tail) (hrest : Reads rest parts) :
      Reads (c :: rest) (.plain c :: parts)

/-! ## Names -/

theorem splitName_of_closed (hname : '}' ∉ name) (rest : List Char) :
    splitName (name ++ '}' :: rest) = (name, rest) := by
  induction name with
  | nil => rfl
  | cons c name ih =>
    obtain ⟨hc, hname⟩ := not_or.mp (List.mem_cons.not.mp hname)
    rw [List.cons_append, splitName, if_neg (Ne.symm hc), ih hname]

theorem splitName_of_unclosed (hname : '}' ∉ name) : splitName name = (name, []) := by
  induction name with
  | nil => rfl
  | cons c name ih =>
    obtain ⟨hc, hname⟩ := not_or.mp (List.mem_cons.not.mp hname)
    rw [splitName, if_neg (Ne.symm hc), ih hname]

/-- Behind an opening there is a closing brace, the first of which ends the name, or there is
none. -/
theorem exists_name (cs : List Char) :
    (∃ name rest, '}' ∉ name ∧ cs = name ++ '}' :: rest) ∨ '}' ∉ cs := by
  by_cases hmem : '}' ∈ cs
  · obtain ⟨name, rest, rfl, hname⟩ := List.eq_append_cons_of_mem hmem
    exact .inl ⟨name, rest, hname, rfl⟩
  · exact .inr hmem

/-! ## Expansion -/

section Expansion

variable (lookup)

theorem expandChars_nil : expandChars lookup [] = [] := by rw [expandChars]

theorem expandChars_of_closed (hname : '}' ∉ name) (rest : List Char) :
    expandChars lookup ('$' :: '{' :: (name ++ '}' :: rest)) =
      replacement lookup name ++ expandChars lookup rest := by
  rw [expandChars, splitName_of_closed hname]

theorem expandChars_of_unclosed (hname : '}' ∉ name) :
    expandChars lookup ('$' :: '{' :: name) = replacement lookup name := by
  rw [expandChars, splitName_of_unclosed hname, expandChars_nil, List.append_nil]

theorem expandChars_of_plain (hplain : ∀ tail, c :: rest ≠ '$' :: '{' :: tail) :
    expandChars lookup (c :: rest) = c :: expandChars lookup rest := by
  rw [expandChars]
  rintro tail rfl rfl
  exact hplain tail rfl

end Expansion

/-! ## Readings -/

/-- Every text has a reading. -/
theorem exists_reads (cs : List Char) : ∃ parts, Reads cs parts := by
  -- what is left to be read becomes shorter with every part
  induction hlength : cs.length using Nat.strongRecOn generalizing cs with
  | ind length ih =>
    subst hlength
    by_cases hopens : ∃ tail, cs = '$' :: '{' :: tail
    · obtain ⟨tail, rfl⟩ := hopens
      rcases exists_name tail with ⟨name, rest, hname, rfl⟩ | hname
      · obtain ⟨parts, hrest⟩ := ih rest.length (by simp; omega) rest rfl
        exact ⟨_, .closed hname hrest⟩
      · exact ⟨_, .unclosed hname⟩
    · cases cs with
      | nil => exact ⟨[], .nil⟩
      | cons c rest =>
        obtain ⟨parts, hrest⟩ := ih rest.length (by simp) rest rfl
        exact ⟨_, .plain (fun tail heq => hopens ⟨tail, heq⟩) hrest⟩

namespace Reads

variable {parts parts' : List Part}

/-- What follows an opening is read as one part, up to the brace that closes it. -/
theorem of_open {tail : List Char} (h : Reads ('$' :: '{' :: tail) parts) :
    (∃ name rest others, '}' ∉ name ∧ tail = name ++ '}' :: rest ∧ parts = .closed name :: others ∧
      Reads rest others) ∨ ('}' ∉ tail ∧ parts = [.unclosed tail]) := by
  generalize htext : '$' :: '{' :: tail = text at h
  cases h with
  | nil => cases htext
  | closed hname hrest =>
    cases htext
    exact .inl ⟨_, _, _, hname, rfl, rfl, hrest⟩
  | unclosed hname =>
    cases htext
    exact .inr ⟨hname, rfl⟩
  | plain hplain hrest => exact absurd htext.symm (hplain tail)

/-- No text has two readings. -/
theorem unique (h : Reads cs parts) (h' : Reads cs parts') : parts' = parts := by
  induction h generalizing parts' with
  | nil => cases h'; rfl
  | @closed name rest parts hname hrest ih =>
    rcases h'.of_open with ⟨name', rest', others, hname', heq, rfl, hrest'⟩ | ⟨hname', -⟩
    · have hsplit := (splitName_of_closed hname rest).symm.trans
        (heq ▸ splitName_of_closed hname' rest')
      obtain ⟨rfl, rfl⟩ := Prod.mk.inj hsplit
      rw [ih hrest']
    · exact absurd (by simp) hname'
  | @unclosed name hname =>
    rcases h'.of_open with ⟨name', rest', others, -, rfl, -⟩ | ⟨-, rfl⟩
    · exact absurd (by simp) hname
    · rfl
  | @plain c rest parts hplain hrest ih =>
    generalize htext : c :: rest = text at h'
    cases h' with
    | nil => cases htext
    | closed _ _ => exact absurd htext (hplain _)
    | unclosed _ => exact absurd htext (hplain _)
    | plain _ hrest' =>
      cases htext
      rw [ih hrest']

/-- The parts of a text put together are the text again. -/
theorem flatMap_written (h : Reads cs parts) : parts.flatMap Part.written = cs := by
  induction h with
  | nil => rfl
  | closed _ _ ih => simp [Part.written, ih]
  | unclosed _ => simp [Part.written]
  | plain _ _ ih => simp [Part.written, ih]

/-- **A text is expanded part by part**. -/
theorem expandChars_eq (h : Reads cs parts) (lookup : String → Option String) :
    expandChars lookup cs = parts.flatMap (Part.filled lookup) := by
  induction h with
  | nil => exact expandChars_nil lookup
  | closed hname _ ih =>
    rw [expandChars_of_closed lookup hname, ih, replacement_eq, List.flatMap_cons, Part.filled]
  | unclosed hname =>
    rw [expandChars_of_unclosed lookup hname, replacement_eq, List.flatMap_singleton, Part.filled]
  | plain hplain _ ih =>
    rw [expandChars_of_plain lookup hplain, ih, List.flatMap_cons]
    rfl

end Reads

/-! ## Placeholders that no brace closes -/

/-- A text opens a placeholder, and no closing brace follows. -/
def Unclosed (cs : List Char) : Prop :=
  ∃ before name, cs = before ++ '$' :: '{' :: name ∧ '}' ∉ name

theorem not_unclosed_nil : ¬Unclosed [] := by
  rintro ⟨before, name, heq, -⟩
  simp at heq

theorem Unclosed.append (h : Unclosed rest) (before : List Char) : Unclosed (before ++ rest) := by
  obtain ⟨between, name, rfl, hname⟩ := h
  exact ⟨before ++ between, name, by simp, hname⟩

/-- A placeholder that is not closed stands behind every closing brace. -/
theorem unclosed_append_brace_iff (cs : List Char) :
    Unclosed (cs ++ '}' :: rest) ↔ Unclosed rest := by
  refine ⟨fun h => ?_, fun h => ?_⟩
  · obtain ⟨before, name, heq, hname⟩ := h
    have hsplit : (cs ++ ['}']) ++ rest = before ++ '$' :: '{' :: name := by simpa using heq
    rcases List.append_eq_append_iff.mp hsplit with ⟨more, -, hrest⟩ | ⟨more, hcs, hopen⟩
    · exact ⟨more, name, hrest, hname⟩
    rcases List.eq_nil_or_concat more with rfl | ⟨more, last, rfl⟩
    · exact ⟨[], name, by simpa using hopen.symm, hname⟩
    -- otherwise the brace would stand behind the opening
    rw [List.concat_eq_append] at hcs hopen
    rw [← List.append_assoc] at hcs
    obtain ⟨-, hlast⟩ := List.append_inj' hcs rfl
    have hbrace : '}' ∈ '$' :: '{' :: name := by simp [hopen, ← hlast]
    exact absurd (by simpa using hbrace) hname
  · simpa using h.append (cs ++ ['}'])

/-- A character that begins no placeholder does not matter. -/
theorem unclosed_cons_iff (hplain : ∀ tail, c :: rest ≠ '$' :: '{' :: tail) :
    Unclosed (c :: rest) ↔ Unclosed rest := by
  refine ⟨fun h => ?_, fun h => h.append [c]⟩
  obtain ⟨before, name, heq, hname⟩ := h
  cases before with
  | nil => exact absurd heq (hplain name)
  | cons d before => exact ⟨before, name, (List.cons.inj heq).2, hname⟩

namespace Reads

variable {parts : List Part}

/-- **A text opens a placeholder that it does not close just if it is read with one**. -/
theorem unclosed_iff (h : Reads cs parts) : Unclosed cs ↔ ∃ name, .unclosed name ∈ parts := by
  induction h with
  | nil => simpa using not_unclosed_nil
  | @closed name rest parts _ _ ih =>
    have hbehind : Unclosed ('$' :: '{' :: (name ++ '}' :: rest)) ↔ Unclosed rest :=
      unclosed_append_brace_iff ('$' :: '{' :: name)
    rw [hbehind, ih]
    simp
  | @unclosed name hname =>
    exact iff_of_true ⟨[], name, rfl, hname⟩ ⟨name, List.mem_singleton_self _⟩
  | plain hplain _ ih =>
    rw [unclosed_cons_iff hplain, ih]
    simp

theorem expandChars_of_not_unclosed (h : Reads cs parts) (hclosed : ¬Unclosed cs) :
    expandChars lookup cs = parts.flatMap (Part.filledIfClosed lookup) := by
  rw [h.expandChars_eq]
  refine List.flatMap_congr fun part hpart => Part.filled_eq_filledIfClosed fun name heq => ?_
  exact hclosed (h.unclosed_iff.mpr ⟨name, heq ▸ hpart⟩)

/-- Nothing being known, a text is left alone but for a brace at its end, if its last placeholder
lacks one. -/
theorem expandChars_of_unknown (h : Reads cs parts) (hunknown : ∀ name, lookup name = none) :
    (Unclosed cs → expandChars lookup cs = cs ++ ['}']) ∧
      (¬Unclosed cs → expandChars lookup cs = cs) := by
  have hreplacement : ∀ name, replacement lookup name = '$' :: '{' :: name ++ ['}'] := by
    intro name
    rw [replacement, hunknown]
  induction h with
  | nil => exact ⟨fun hopen => absurd hopen not_unclosed_nil, fun _ => expandChars_nil lookup⟩
  | @closed name rest parts hname _ ih =>
    have hbehind : Unclosed ('$' :: '{' :: (name ++ '}' :: rest)) ↔ Unclosed rest :=
      unclosed_append_brace_iff ('$' :: '{' :: name)
    rw [hbehind, expandChars_of_closed lookup hname, hreplacement]
    exact ⟨fun hopen => by simp [ih.1 hopen], fun hclosed => by simp [ih.2 hclosed]⟩
  | @unclosed name hname =>
    rw [expandChars_of_unclosed lookup hname, hreplacement]
    exact ⟨fun _ => rfl, fun hclosed => absurd ⟨[], name, rfl, hname⟩ hclosed⟩
  | plain hplain _ ih =>
    rw [unclosed_cons_iff hplain, expandChars_of_plain lookup hplain]
    exact ⟨fun hopen => by simp [ih.1 hopen], fun hclosed => by rw [ih.2 hclosed]⟩

end Reads

/-! ## Expansion of a text -/

theorem toList_expand (lookup : String → Option String) (text : String) :
    (expand lookup text).toList = expandChars lookup text.toList := String.toList_ofList

/-- **A text is expanded part by part, from left to right.**  A text is read in parts in exactly one
way, and the parts put together are the text.  Each part is replaced by itself: a placeholder of a
known name by its value, and whatever else by what it is, except that a placeholder which the text
does not close is treated as if a brace closed it.  So if the text closes every placeholder, nothing
changes but closed placeholders of known names; and if no name is known, then a text that closes its
placeholders stays as it is, and any other one gets a closing brace at its end. -/
theorem expand_part_by_part (lookup : String → Option String) (text : String) :
    ∃ parts, (∀ parts', Reads text.toList parts' ↔ parts' = parts) ∧
      parts.flatMap Part.written = text.toList ∧
      (expand lookup text).toList = parts.flatMap (Part.filled lookup) ∧
      (¬Unclosed text.toList →
        (expand lookup text).toList = parts.flatMap (Part.filledIfClosed lookup)) ∧
      ((∀ name, lookup name = none) →
        (¬Unclosed text.toList → expand lookup text = text) ∧
          (Unclosed text.toList → expand lookup text = text ++ "\x7d")) := by
  obtain ⟨parts, hreads⟩ := exists_reads text.toList
  simp only [← String.toList_inj, String.toList_append, toList_expand]
  refine ⟨parts, fun parts' => ⟨hreads.unique, fun heq => heq ▸ hreads⟩, hreads.flatMap_written,
    hreads.expandChars_eq lookup, hreads.expandChars_of_not_unclosed, fun hunknown => ?_⟩
  exact (hreads.expandChars_of_unknown hunknown).symm

/-- Two names, of which the value of the first one looks like a placeholder of the second one. -/
def layered (name : String) : Option String :=
  if name = "A" then some "$\x7bB\x7d" else if name = "B" then some "b" else none

/-- Of two openings the first one counts, and a closing brace without one is a character. -/
theorem reads_layered : Reads "$$\x7bA\x7d$\x7b$\x7bB\x7d\x7d".toList
    [.plain '$', .closed ['A'], .closed ['$', '{', 'B'], .plain '}'] := by
  have htext : "$$\x7bA\x7d$\x7b$\x7bB\x7d\x7d".toList =
      '$' :: '$' :: '{' :: (['A'] ++ '}' :: '$' :: '{' :: (['$', '{', 'B'] ++ ['}', '}'])) := rfl
  rw [htext]
  exact .plain nofun (.closed (by decide) (.closed (by decide) (.plain nofun .nil)))

/-- A value that looks like a placeholder is not read again; and a last placeholder that is not
closed does get a brace. -/
theorem expand_part_by_part_layered :
    expand layered "$$\x7bA\x7d$\x7b$\x7bB\x7d\x7d" = "$$\x7bB\x7d$\x7b$\x7bB\x7d\x7d" ∧
      expand (fun _ => none) "$$\x7bA\x7d$\x7b$\x7bB\x7d\x7d" =
        "$$\x7bA\x7d$\x7b$\x7bB\x7d\x7d" ∧
      expand (fun _ => none) "$\x7bA\x7d$\x7b" = "$\x7bA\x7d$\x7b\x7d" := by
  have hclosed : ¬Unclosed "$$\x7bA\x7d$\x7b$\x7bB\x7d\x7d".toList := by
    rw [reads_layered.unclosed_iff]
    simp
  obtain ⟨parts, hreads, -, -, hkept, -⟩ :=
    expand_part_by_part layered "$$\x7bA\x7d$\x7b$\x7bB\x7d\x7d"
  obtain rfl := (hreads _).mp reads_layered
  obtain ⟨-, -, -, -, -, halone⟩ :=
    expand_part_by_part (fun _ => none) "$$\x7bA\x7d$\x7b$\x7bB\x7d\x7d"
  obtain ⟨-, -, -, -, -, hbrace⟩ := expand_part_by_part (fun _ => none) "$\x7bA\x7d$\x7b"
  refine ⟨String.toList_inj.mp ?_, (halone fun _ => rfl).1 hclosed,
    (hbrace fun _ => rfl).2 ⟨['$', '{', 'A', '}'], [], rfl, by simp⟩⟩
  rw [hkept hclosed]
  decide

/-- **A placeholder that the text does not close is not left as it is written**: it gets a brace if
its name is unknown, and its value otherwise. -/
theorem unclosed_not_kept :
    Reads "$\x7bNODE".toList [.unclosed "NODE".toList] ∧
      (∀ lookup, [Part.unclosed "NODE".toList].flatMap (Part.filledIfClosed lookup) =
        "$\x7bNODE".toList) ∧
      expand (fun _ => none) "$\x7bNODE" = "$\x7bNODE\x7d" ∧
      expand (fun _ => some "eu") "$\x7bNODE" = "eu" := by
  have hname : '}' ∉ "NODE".toList := by decide
  refine ⟨.unclosed hname, fun _ => rfl, ?_, ?_⟩
  all_goals
    refine String.toList_inj.mp ((toList_expand _ _).trans ?_)
    exact expandChars_of_unclosed _ hname

end Signpost.Placeholder
