import LockingScript.CommandLine.Report
import LockingScript.Proofs.Token.Rendering

/-!
# Printed lines

The program prints lines and ends each of them with a line break. None of them holds a break of
its own, so the lines can be told apart in the output.
-/

namespace LockingScript

theorem OutputClass.isBare_name (c : OutputClass) : Text.IsBare c.name.toList := by
  cases c <;> decide

namespace CommandLine

/-- The lines of a text. Each of them ends in a line break. -/
def lines (text : String) : List String :=
  (text.toList.splitOnP (· == '\n')).dropLast.map String.ofList

theorem toList_unlines_cons (line : String) (rest : List String) :
    (unlines (line :: rest)).toList = line.toList ++ '\n' :: (unlines rest).toList := by
  simp [unlines]

theorem lines_unlines_cons {line : String} (noBreak : '\n' ∉ line.toList) (rest : List String) :
    lines (unlines (line :: rest)) = line :: lines (unlines rest) := by
  have whole : line.toList.splitOnP (· == '\n') = [line.toList] := by
    apply List.splitOnP_eq_singleton
    intro c membership
    refine beq_eq_false_iff_ne.mpr ?_
    rintro rfl
    exact noBreak membership
  rw [lines, toList_unlines_cons, List.splitOnP_append_cons _ _ (by rfl), whole,
    List.singleton_append, List.dropLast_cons_of_ne_nil (List.splitOnP_ne_nil _ _), List.map_cons,
    String.ofList_toList, lines]

/-- Lines without breaks of their own are found again. -/
theorem lines_unlines {list : List String} (noBreak : ∀ line ∈ list, '\n' ∉ line.toList) :
    lines (unlines list) = list := by
  induction list with
  | nil => rfl
  | cons line rest ih =>
      obtain ⟨first, later⟩ := List.forall_mem_cons.mp noBreak
      rw [lines_unlines_cons first, ih later]

theorem newline_not_mem_append {a b : String} (first : '\n' ∉ a.toList)
    (second : '\n' ∉ b.toList) : '\n' ∉ (a ++ b).toList := by
  rw [String.toList_append, List.mem_append, not_or]
  exact ⟨first, second⟩

theorem newline_not_mem_rendering (o : Options) (script : Bytes) :
    '\n' ∉ (rendering o script).toList := by
  unfold rendering
  split
  · exact Reading.newline_not_mem_oneLine _
  · exact Reading.newline_not_mem_shortForm _ fun _ => Reading.wellFormed_of_mem_ofScript

theorem newline_not_mem_className (c : OutputClass) : '\n' ∉ c.name.toList :=
  c.isBare_name.blank_not_mem (by decide)

theorem newline_not_mem_classLine (c : Classification) : '\n' ∉ (classLine c).toList := by
  have plain : '\n' ∉ ("class: " ++ c.outputClass.name).toList :=
    newline_not_mem_append (by decide) (newline_not_mem_className _)
  unfold classLine
  split
  · rename_i inner _
    have opened := newline_not_mem_append plain (b := " (") (by decide)
    have named := newline_not_mem_append opened (newline_not_mem_className inner)
    exact newline_not_mem_append named (by decide)
  · exact plain

theorem newline_not_mem_payeeLines (p : Payees) :
    ∀ line ∈ payeeLines p, '\n' ∉ line.toList := by
  intro line listed
  rcases List.mem_append.mp listed with signatures | payload
  · obtain ⟨_, same⟩ := List.mem_ite_nil_right.mp signatures
    rw [List.mem_singleton.mp same]
    have bare := Text.isBare_toString p.required
    exact newline_not_mem_append (by decide) (bare.blank_not_mem (by decide))
  · obtain ⟨address, _, rfl⟩ := List.mem_map.mp payload
    refine newline_not_mem_append (by decide) ?_
    rw [Hex.toList_encode]
    exact (Hex.isBare_write _).blank_not_mem (by decide)

theorem newline_not_mem_printed (o : Options) (script : Bytes) (c : Classification) (p : Payees) :
    ∀ line ∈ rendering o script :: classLine c :: payeeLines p, '\n' ∉ line.toList :=
  List.forall_mem_cons.mpr ⟨newline_not_mem_rendering o script,
    List.forall_mem_cons.mpr ⟨newline_not_mem_classLine c, newline_not_mem_payeeLines p⟩⟩

end CommandLine

end LockingScript
