/-
  PackageIndex.Proofs.Context.FileName — the part of a file's name that restricts the file.

  Of a name only what stands behind the first underscore and before the first dot counts. A last
  piece `test` of it is passed over, and the one or two pieces that are then the last are looked
  up. The empty piece before the first underscore is no system and no architecture, so it does
  not matter that it is looked up with the others.

  - `ofName_of_hasTail`, `ofName_of_no_underscore`: what a name comes to.
  - `endsIn_iff`: the pieces that the tags are taken from.
  - `ofName_test`: a name with `_test` behind it restricts as it does without.
  - `satisfied_by_tail`: the answer to a name, and the tags that are asked about.
-/

import PackageIndex.Proofs.Context.Asking
import PackageIndex.Proofs.Text.Parts

namespace PackageIndex.NameTags

/-! ## Parts of a name -/

/-- What stands behind the first underscore, up to the first dot. -/
def HasTail (name : String) (tail : List Char) : Prop :=
  ∃ front rest, name.toList = front ++ '_' :: (tail ++ rest) ∧ '_' ∉ front ∧ '.' ∉ front ∧ '.' ∉ tail ∧ ∀ c ∈ rest.head?, c = '.'

def restrictingPieces (tail : List Char) : List String :=
  let pieces := (tail.splitOn '_').map String.ofList
  if pieces.getLast? = some "test" then pieces.dropLast else pieces

/-- The tags of pieces: of the last two if they are a system and an architecture, or else of the last one if it is
either of these. -/
inductive EndsIn (pieces : List String) : NameTags → Prop
  | pair (more : List String) {system architecture : String} (h : pieces = more ++ [system, architecture])
      (hsystem : system ∈ knownSystems) (harchitecture : architecture ∈ knownArchitectures) :
      EndsIn pieces (.pair system architecture)
  | one (more : List String) {tag : String} (h : pieces = more ++ [tag])
      (hknown : tag ∈ knownSystems ∨ tag ∈ knownArchitectures)
      (hpair : ¬ (tag ∈ knownArchitectures ∧ ∃ system ∈ more.getLast?, system ∈ knownSystems)) : EndsIn pieces (.one tag)
  | none (h : ∀ tag ∈ pieces.getLast?, tag ∉ knownSystems ∧ tag ∉ knownArchitectures) : EndsIn pieces .none

variable {ctx : BuildContext} {name : String} {tail b rest : List Char} {pieces : List String} {t : NameTags}

/-! ## Pieces -/

theorem unknown_empty : "" ∉ knownSystems ∧ "" ∉ knownArchitectures := by decide

/-- The empty piece before the others makes no difference. -/
theorem ofPieces_concat_empty (l : List String) : ofPieces (l ++ [""]) = ofPieces l := by
  rcases l with _ | ⟨a, _ | ⟨s, l⟩⟩
  · simp [ofPieces, unknown_empty]
  · simp [ofPieces, unknown_empty]
  · rfl

theorem ofPieces_pair {a s : String} (l : List String) (hs : s ∈ knownSystems) (ha : a ∈ knownArchitectures) :
    ofPieces (a :: s :: l) = .pair s a := by
  simp [ofPieces, hs, ha]

theorem ofPieces_one {a : String} {l : List String} (ha : a ∈ knownSystems ∨ a ∈ knownArchitectures)
    (hpair : ¬ (a ∈ knownArchitectures ∧ ∃ s ∈ l.head?, s ∈ knownSystems)) : ofPieces (a :: l) = .one a := by
  rcases l with _ | ⟨s, l⟩
  · simp [ofPieces, ha]
  · have hnot : ¬ (s ∈ knownSystems ∧ a ∈ knownArchitectures) := fun h => hpair ⟨h.2, s, rfl, h.1⟩
    simp [ofPieces, ha, hnot]

theorem ofPieces_none {l : List String} (h : ∀ a ∈ l.head?, a ∉ knownSystems ∧ a ∉ knownArchitectures) :
    ofPieces l = .none := by
  rcases l with _ | ⟨a, _ | ⟨s, l⟩⟩
  · rfl
  · simp [ofPieces, h a rfl]
  · simp [ofPieces, h a rfl]

/-- What the pieces end in is what is looked up, last piece first. -/
theorem endsIn_iff {l : List String} : EndsIn l.reverse t ↔ ofPieces l = t := by
  constructor
  · intro h
    have hreverse {pieces : List String} (hl : l.reverse = pieces) : l = pieces.reverse := by
      rw [← hl, List.reverse_reverse]
    cases h with
    | pair more hl hs ha =>
      rw [hreverse hl]
      simpa using ofPieces_pair _ hs ha
    | one more hl ha hpair =>
      rw [hreverse hl, List.reverse_append]
      exact ofPieces_one ha (by simpa using hpair)
    | none hl => exact ofPieces_none (by simpa using hl)
  · rintro rfl
    rcases l with _ | ⟨a, l⟩
    · exact .none (by simp)
    by_cases hpair : a ∈ knownArchitectures ∧ ∃ s ∈ l.head?, s ∈ knownSystems
    · obtain ⟨ha, s, hs, hsystem⟩ := hpair
      obtain ⟨more, rfl⟩ := List.head?_eq_some_iff.mp hs
      rw [ofPieces_pair more hsystem ha]
      exact .pair more.reverse (by simp) hsystem ha
    by_cases ha : a ∈ knownSystems ∨ a ∈ knownArchitectures
    · rw [ofPieces_one ha hpair]
      exact .one l.reverse (by simp) ha (by simpa using hpair)
    · have hunknown : ∀ b ∈ (a :: l).head?, b ∉ knownSystems ∧ b ∉ knownArchitectures := by
        intro b hb
        cases hb
        exact not_or.mp ha
      rw [ofPieces_none hunknown]
      exact .none (by simpa using hunknown)

/-! ## Names -/

theorem stem_of_hasTail (h : HasTail name tail) :
    ∃ front, '_' ∉ front ∧ name.toList.takeWhile (· ≠ '.') = front ++ '_' :: tail := by
  obtain ⟨front, rest, hname, hunderscore, hdot, htail, hrest⟩ := h
  have hno : '.' ∉ front ++ '_' :: tail := by simp [hdot, htail]
  have hsplit : name.toList = (front ++ '_' :: tail) ++ rest := by simp [hname]
  rw [hsplit]
  exact ⟨front, hunderscore, (span_ne_append hno hrest).1⟩

theorem exists_hasTail_iff : (∃ tail, HasTail name tail) ↔ '_' ∈ name.toList.takeWhile (· ≠ '.') := by
  constructor
  · rintro ⟨tail, h⟩
    obtain ⟨front, -, hstem⟩ := stem_of_hasTail h
    rw [hstem]
    simp
  · intro h
    obtain ⟨front, tail, hstem, hfront⟩ := List.eq_append_cons_of_mem h
    have hdot : '.' ∉ front ++ '_' :: tail := by
      rw [← hstem]
      exact not_mem_takeWhile_ne '.' name.toList
    simp only [List.mem_append, List.mem_cons, not_or] at hdot
    refine ⟨tail, front, name.toList.dropWhile (· ≠ '.'), ?_, hfront, hdot.1, hdot.2.2, ?_⟩
    · rw [← List.cons_append, ← List.append_assoc, ← hstem, List.takeWhile_append_dropWhile]
    · intro c hc
      exact eq_of_head?_dropWhile_ne hc

/-- Tags are looked up among the pieces of the part that counts. -/
theorem ofName_of_hasTail (h : HasTail name tail) : ofName name = ofPieces (restrictingPieces tail).reverse := by
  obtain ⟨front, hunderscore, hstem⟩ := stem_of_hasTail h
  have hfrom : (front ++ '_' :: tail).dropWhile (· ≠ '_') = '_' :: tail :=
    (span_ne_append hunderscore (by simp)).2
  have hlast : lastPieces name = ((tail.splitOn '_').map String.ofList).reverse ++ [""] := by
    have hpieces : ('_' :: tail).splitOn '_' = [] :: tail.splitOn '_' := by
      simpa using List.splitOn_append_cons_self (a := '_') [] tail
    simp only [lastPieces, hstem, hfrom, hpieces]
    simp
  unfold ofName restrictingPieces
  rw [hlast]
  obtain ⟨l, hl⟩ : ∃ l, ((tail.splitOn '_').map String.ofList).reverse = l := ⟨_, rfl⟩
  have hmap : (tail.splitOn '_').map String.ofList = l.reverse := by rw [← hl, List.reverse_reverse]
  rw [hl, hmap]
  rcases l with _ | ⟨a, l⟩
  · simpa using ofPieces_concat_empty []
  by_cases ha : a = "test"
  · subst ha
    simpa using ofPieces_concat_empty l
  · have hkept := ofPieces_concat_empty (a :: l)
    simpa [ha] using hkept

/-- Without an underscore before the first dot a name restricts nothing. -/
theorem ofName_of_no_underscore (h : '_' ∉ name.toList.takeWhile (· ≠ '.')) : ofName name = .none := by
  have hfrom : (name.toList.takeWhile (· ≠ '.')).dropWhile (· ≠ '_') = [] := by
    rw [← List.append_nil (name.toList.takeWhile _)]
    exact (span_ne_append h (by simp)).2
  have hlast : lastPieces name = [""] := by
    simp only [lastPieces, hfrom]
    rfl
  rw [ofName, hlast]
  rfl

/-- The last piece stands behind the last underscore. -/
theorem exists_lastPiece (tail : List Char) : ∃ pieces last, tail.splitOn '_' = pieces ++ [last] ∧ '_' :: last <:+ '_' :: tail := by
  by_cases h : '_' ∈ tail.reverse
  · obtain ⟨last, front, hreverse, hlast⟩ := List.eq_append_cons_of_mem h
    have htail : tail = front.reverse ++ '_' :: last.reverse := by
      rw [← List.reverse_reverse tail, hreverse]
      simp
    refine ⟨front.reverse.splitOn '_', last.reverse, ?_, ?_⟩
    · have hone : last.reverse.splitOn '_' = [last.reverse] := List.splitOn_eq_singleton (by simpa using hlast)
      rw [htail, List.splitOn_append_cons_self, hone]
    · rw [htail]
      exact (List.suffix_append _ _).trans (List.suffix_cons _ _)
  · exact ⟨[], tail, List.splitOn_eq_singleton (by simpa using h), List.suffix_rfl⟩

/-- With `_test` behind it, and not behind another one, a name restricts as it does without. -/
theorem ofName_test (hdot : '.' ∉ b) (htest : ¬ "_test".toList <:+ b) (hrest : ∀ c ∈ rest.head?, c = '.') :
    ofName (String.ofList (b ++ "_test".toList ++ rest)) = ofName (String.ofList (b ++ rest)) := by
  by_cases h : '_' ∈ b
  · obtain ⟨front, tail, rfl, hfront⟩ := List.eq_append_cons_of_mem h
    simp only [List.mem_append, List.mem_cons, not_or] at hdot
    have hplain : HasTail (String.ofList (front ++ '_' :: tail ++ rest)) tail :=
      ⟨front, rest, by simp, hfront, hdot.1, hdot.2.2, hrest⟩
    have hwith : HasTail (String.ofList (front ++ '_' :: tail ++ "_test".toList ++ rest)) (tail ++ '_' :: "test".toList) :=
      ⟨front, rest, by simp, hfront, hdot.1, by simp [hdot.2.2], hrest⟩
    rw [ofName_of_hasTail hplain, ofName_of_hasTail hwith]
    have hlast : ((tail.splitOn '_').map String.ofList).getLast? ≠ some "test" := by
      obtain ⟨pieces, last, hpieces, hsuffix⟩ := exists_lastPiece tail
      rw [hpieces]
      intro heq
      have htext : last = "test".toList := by simpa using congrArg (Option.map String.toList) heq
      subst htext
      exact htest (hsuffix.trans (List.suffix_append front _))
    have hone : "test".toList.splitOn '_' = ["test".toList] := by decide
    have hpieces : restrictingPieces (tail ++ '_' :: "test".toList) = restrictingPieces tail := by
      simp only [restrictingPieces, List.splitOn_append_cons_self, hone, List.map_append, if_neg hlast]
      simp
    rw [hpieces]
  · have hplain : '_' ∉ (String.ofList (b ++ rest)).toList.takeWhile (· ≠ '.') := by
      rw [String.toList_ofList, (span_ne_append hdot hrest).1]
      exact h
    have hwith : HasTail (String.ofList (b ++ "_test".toList ++ rest)) "test".toList :=
      ⟨b, rest, by simp, h, hdot, by decide, hrest⟩
    have hnone : restrictingPieces "test".toList = [] := by decide
    rw [ofName_of_no_underscore hplain, ofName_of_hasTail hwith, hnone]
    rfl

/-! ## Answers -/

/-- A name is answered by what stands behind its first underscore and before its first dot, and where nothing does it
is right without a question. What `_test` stands behind is answered as it is without. The tags that are asked about are
those that the pieces end in: of a system and an architecture the architecture, and the system if it is right. -/
theorem satisfied_by_tail (ctx : BuildContext) (log : List String) :
    (∀ name, (¬ ∃ tail, HasTail name tail) → ((ofName name).satisfied ctx).run log = (true, log)) ∧
    (∀ name name' tail, HasTail name tail → HasTail name' tail →
      ((ofName name).satisfied ctx).run log = ((ofName name').satisfied ctx).run log) ∧
    (∀ b ext, '.' ∉ b → ¬ "_test".toList <:+ b →
      ((ofName (String.ofList (b ++ "_test".toList ++ '.' :: ext))).satisfied ctx).run log =
        ((ofName (String.ofList (b ++ '.' :: ext))).satisfied ctx).run log) ∧
    ∀ name tail, HasTail name tail → (∃ t, EndsIn (restrictingPieces tail) t) ∧
      ∀ t, EndsIn (restrictingPieces tail) t → ((ofName name).satisfied ctx).run log = (t.holds ctx, log ++ t.asked ctx) := by
  refine ⟨fun name h => ?_, fun name name' tail h h' => ?_, fun b ext hdot htest => ?_, fun name tail h => ⟨?_, fun t ht => ?_⟩⟩
  · rw [exists_hasTail_iff] at h
    rw [ofName_of_no_underscore h]
    rfl
  · rw [ofName_of_hasTail h, ofName_of_hasTail h']
  · rw [ofName_test hdot htest (by simp)]
  · have hends := endsIn_iff.mpr (rfl : ofPieces (restrictingPieces tail).reverse = _)
    rw [List.reverse_reverse] at hends
    exact ⟨_, hends⟩
  · rw [← List.reverse_reverse (restrictingPieces tail), endsIn_iff] at ht
    rw [ofName_of_hasTail h, ht, run_satisfied]

/-- A system and an architecture, with `_test` behind them and in a name that begins with an underscore; the same the
other way round; and a system behind the first dot. -/
theorem sampleNames_satisfied :
    HasTail "zip_linux_arm64_test.go" "linux_arm64_test".toList ∧ HasTail "_linux_arm64_test" "linux_arm64_test".toList ∧
    EndsIn (restrictingPieces "linux_arm64_test".toList) (.pair "linux" "arm64") ∧
    ((ofName "zip_linux_arm64_test.go").satisfied (.ofTarget "linux" "amd64")).run ["cgo"] = (false, ["cgo", "arm64"]) ∧
    ((ofName "_linux_arm64_test").satisfied (.ofTarget "linux" "amd64")).run ["cgo"] = (false, ["cgo", "arm64"]) ∧
    ((ofName "zip_arm64_linux_test.go").satisfied (.ofTarget "linux" "amd64")).run ["cgo"] = (true, ["cgo", "linux"]) ∧
    ((ofName "linux.x_darwin.go").satisfied (.ofTarget "linux" "amd64")).run ["cgo"] = (true, ["cgo"]) := by
  have hby := satisfied_by_tail (.ofTarget "linux" "amd64") ["cgo"]
  have htail : HasTail "zip_linux_arm64_test.go" "linux_arm64_test".toList :=
    ⟨"zip".toList, ".go".toList, by decide, by decide, by decide, by decide, by simp⟩
  have htail' : HasTail "_linux_arm64_test" "linux_arm64_test".toList :=
    ⟨[], [], by decide, by decide, by decide, by decide, by simp⟩
  have hends : EndsIn (restrictingPieces "linux_arm64_test".toList) (.pair "linux" "arm64") :=
    .pair [] (by decide) (by decide) (by decide)
  have hrun := (hby.2.2.2 _ _ htail).2 _ hends
  have hsame := hby.2.1 _ _ _ htail htail'
  have htest := hby.2.2.1 "zip_arm64_linux".toList "go".toList (by decide) (by decide)
  have hnone : ¬ ∃ tail, HasTail "linux.x_darwin.go" tail := by
    rw [exists_hasTail_iff]
    decide
  exact ⟨htail, htail', hends, hrun, hsame.symm.trans hrun, htest, hby.1 _ hnone⟩

end PackageIndex.NameTags
