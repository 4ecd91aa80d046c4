/-
  PackageIndex.Text.Cut — cutting a list at a mark.

  - `append_of_cutAt?`: what is cut apart, put together with the mark, is what was cut.
-/

namespace PackageIndex

variable {α : Type} [BEq α]

def cutAt? (mark : List α) : List α → Option (List α × List α)
  | [] => if mark.isEmpty then some ([], []) else none
  | a :: l =>
    match mark.isPrefixOf? (a :: l) with
    | some rest => some ([], rest)
    | none => (cutAt? mark l).map fun (before, after) => (a :: before, after)

theorem append_of_isPrefixOf? [LawfulBEq α] {mark l rest : List α} (h : mark.isPrefixOf? l = some rest) :
    mark ++ rest = l := by
  induction mark generalizing l with
  | nil =>
    change some l = some rest at h
    exact (Option.some.inj h).symm
  | cons a mark ih =>
    cases l with
    | nil => exact nomatch (show none = some rest from h)
    | cons b l =>
      change (if a == b then mark.isPrefixOf? l else none) = some rest at h
      split at h
      · rename_i hab
        rw [List.cons_append, ih h, eq_of_beq hab]
      · exact nomatch h

theorem append_of_cutAt? [LawfulBEq α] {mark l before after : List α}
    (h : cutAt? mark l = some (before, after)) : before ++ mark ++ after = l := by
  induction l generalizing before with
  | nil =>
    simp only [cutAt?] at h
    split at h
    · rename_i hm
      cases h
      simpa using hm
    · cases h
  | cons a l ih =>
    simp only [cutAt?] at h
    split at h
    · rename_i rest hp
      cases h
      simpa using append_of_isPrefixOf? hp
    · obtain ⟨⟨b, r⟩, hc, he⟩ := Option.map_eq_some_iff.mp h
      cases he
      rw [← ih hc]
      simp

/-- What follows the mark is shorter than what was cut, by the mark at least. -/
theorem length_of_cutAt? [LawfulBEq α] {mark l before after : List α}
    (h : cutAt? mark l = some (before, after)) : after.length + mark.length ≤ l.length := by
  rw [← append_of_cutAt? h]
  simp only [List.length_append]
  omega

def cutAll [LawfulBEq α] (m : α) (mark l : List α) : List (List α) :=
  match _h : cutAt? (m :: mark) l with
  | none => [l]
  | some (before, after) => before :: cutAll m mark after
termination_by l.length
decreasing_by
  have := length_of_cutAt? _h
  simp only [List.length_cons] at this
  omega

end PackageIndex
