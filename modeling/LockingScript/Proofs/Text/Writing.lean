import LockingScript.Proofs.Text.Words

/-!
# Units written one behind the other

A text grows unit by unit, and a blank goes in front of a unit if there is text already. So empty
units at the start leave no trace. All other units are found again between the blanks of the text,
as long as they hold no blanks themselves.
-/

namespace LockingScript.Text

/-- The text with one more unit behind it. -/
def put (text unit : String) : String := if text = "" then unit else text ++ " " ++ unit

/-- The text of the units. -/
def written (units : List String) : String := units.foldl put ""

/-- The pieces of a text between single blanks. The empty text has none. -/
def pieces (text : String) : List String :=
  if text = "" then [] else (text.toList.splitOn ' ').map String.ofList

theorem append_blank_ne_empty (text unit : String) : text ++ " " ++ unit ≠ "" := by
  simp [String.append_eq_empty_iff]

/-- Once there is text, every unit gets its blank. -/
theorem foldl_put_of_ne_empty {text : String} (begun : text ≠ "") (units : List String) :
    units.foldl put text = " ".intercalate (text :: units) := by
  induction units generalizing text with
  | nil => exact String.intercalate_singleton.symm
  | cons unit rest ih =>
      rw [List.foldl_cons, put, if_neg begun, ih (append_blank_ne_empty text unit),
        String.intercalate_cons_append, String.intercalate_cons_cons]

/-- Empty units are lost as long as there is no text. -/
theorem written_eq (units : List String) :
    written units = " ".intercalate (units.dropWhile String.isEmpty) := by
  induction units with
  | nil => exact String.intercalate_nil.symm
  | cons unit rest ih =>
      by_cases empty : unit = ""
      · subst empty
        exact ih
      · have kept : unit.isEmpty = false := String.isEmpty_eq_false_iff.mpr empty
        rw [List.dropWhile_cons_of_neg (by simpa using kept)]
        exact foldl_put_of_ne_empty empty rest

section Seen

variable {units : List String}

theorem dropWhile_isEmpty_of_seen (seen : ∀ unit ∈ units, unit ≠ "") :
    units.dropWhile String.isEmpty = units := by
  cases units with
  | nil => rfl
  | cons unit rest =>
      apply List.dropWhile_cons_of_neg
      simpa using seen unit List.mem_cons_self

theorem written_of_seen (seen : ∀ unit ∈ units, unit ≠ "") :
    written units = " ".intercalate units := by
  rw [written_eq, dropWhile_isEmpty_of_seen seen]

theorem intercalate_cons_ne_empty {unit : String} (seen : unit ≠ "") (rest : List String) :
    " ".intercalate (unit :: rest) ≠ "" := by
  cases rest with
  | nil => rwa [String.intercalate_singleton]
  | cons next rest =>
      rw [String.intercalate_cons_cons]
      exact append_blank_ne_empty _ _

/-- Units that are not empty leave no text only if there are none. -/
theorem written_eq_empty_iff (seen : ∀ unit ∈ units, unit ≠ "") :
    written units = "" ↔ units = [] := by
  rw [written_of_seen seen]
  cases units with
  | nil => exact iff_of_true String.intercalate_nil rfl
  | cons unit rest =>
      have first := seen unit List.mem_cons_self
      exact iff_of_false (intercalate_cons_ne_empty first rest) (List.cons_ne_nil unit rest)

end Seen

/-- Units that are not empty are written behind a text as they are written by themselves. -/
theorem written_append (front : List String) {back : List String}
    (seen : ∀ unit ∈ back, unit ≠ "") :
    written (front ++ back) =
      written front ++ (if written front ≠ "" ∧ back ≠ [] then " " else "") ++ written back := by
  have whole : written (front ++ back) = back.foldl put (written front) := List.foldl_append
  rw [whole]
  by_cases begun : written front = ""
  · rw [begun, if_neg (by simp)]
    simp [written]
  · rw [foldl_put_of_ne_empty begun]
    cases back with
    | nil => simp [written]
    | cons unit rest =>
        have both : written front ≠ "" ∧ unit :: rest ≠ [] := ⟨begun, List.cons_ne_nil unit rest⟩
        rw [String.intercalate_cons_cons, written_of_seen seen, if_pos both]

/-- The units are found again in the text, but for empty ones at its start. -/
theorem pieces_written {units : List String} (noBlank : ∀ unit ∈ units, ' ' ∉ unit.toList) :
    pieces (written units) = units.dropWhile String.isEmpty := by
  rw [written_eq]
  cases kept : units.dropWhile String.isEmpty with
  | nil => rfl
  | cons unit rest =>
      have seen : unit ≠ "" := by
        rintro rfl
        have head := List.head?_dropWhile_not String.isEmpty units
        rw [kept] at head
        cases head
      have apart : ∀ chars ∈ (unit :: rest).map String.toList, ' ' ∉ chars := by
        intro chars listed
        obtain ⟨other, inRest, rfl⟩ := List.mem_map.mp listed
        exact noBlank other ((List.dropWhile_suffix String.isEmpty).mem (kept ▸ inRest))
      rw [pieces, if_neg (intercalate_cons_ne_empty seen rest), String.toList_intercalate]
      have split := List.splitOn_intercalate ' ' apart (by simp)
      rw [show " ".toList = [' '] from rfl, split, List.map_map]
      simp [Function.comp_def]

end LockingScript.Text
