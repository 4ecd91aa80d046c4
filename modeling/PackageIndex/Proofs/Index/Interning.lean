/-
  PackageIndex.Proofs.Index.Interning — the string table is a dictionary.

  - `StringPool.Names`: a pool has an offset for a string. It stays the string's while others are
    taken in, is the answer when the string is given again, and is looked up in the table.
  - `give_ofPool`: the builder, with bytes and offsets side by side, answers as the pool does.
  - `keeps_recalled`: what a table remembers makes no difference to what it answers.
  - `interning_faithful`: so strings and offsets belong together, whatever is given to the builder
    and whenever it is looked up, and the table is made of the different strings.
-/

import PackageIndex.Index.Interning
import PackageIndex.Index.Session
import PackageIndex.Proofs.Asked
import PackageIndex.Proofs.Index.Size

namespace PackageIndex

open Fallible

/-! ## The pool -/

namespace StringPool

variable {p q : StringPool} {s t : String} {w : UInt32}

def Names (p : StringPool) (w : UInt32) (s : String) : Prop :=
  s = "" ∧ w = 0 ∨ s ≠ "" ∧ ∃ n, p.entries.lookup s = some n ∧ w = n.toUInt32

def IsNew (p : StringPool) (s : String) : Prop := s ≠ "" ∧ p.entries.lookup s = none

def extended (p : StringPool) (s : String) : StringPool := ⟨(s, p.size) :: p.entries, p.size + Utf8.size s.toList + 1⟩

/-- What can come of giving a string to the pool. -/
inductive Interned (p : StringPool) (s : String) : Except FormatError (UInt32 × StringPool) → Prop
  | known {w : UInt32} : p.Names w s → Interned p s (.ok (w, p))
  | new : p.IsNew s → NulFree s → FitsWord p.size → Interned p s (.ok (p.size.toUInt32, p.extended s))
  | nul : p.IsNew s → ¬ NulFree s → Interned p s (.error (.nulInString s))
  | tooLong : p.IsNew s → NulFree s → ¬ FitsWord p.size → Interned p s (.error .tableTooLong)

theorem interned (p : StringPool) (s : String) : Interned p s (intern s p) := by
  unfold intern
  by_cases hs : s = ""
  · rw [if_pos hs]
    exact .known (Or.inl ⟨hs, rfl⟩)
  · rw [if_neg hs]
    cases hlookup : p.entries.lookup s with
    | some n => exact .known (Or.inr ⟨hs, n, hlookup, rfl⟩)
    | none =>
      have hnew : p.IsNew s := ⟨hs, hlookup⟩
      by_cases hnul : NulFree s
      · have hcontains : ¬ s.toList.contains '\x00' = true := by simpa [NulFree] using hnul
        simp only [if_neg hcontains]
        by_cases hfits : FitsWord p.size
        · rw [if_pos hfits]
          exact .new hnew hnul hfits
        · rw [if_neg hfits]
          exact .tooLong hnew hnul hfits
      · have hcontains : s.toList.contains '\x00' = true := by simpa [NulFree] using hnul
        simp only [if_pos hcontains]
        exact .nul hnew hnul

/-- A string that the pool has is answered at once. -/
theorem Names.intern (h : p.Names w s) : intern s p = .ok (w, p) := by
  unfold StringPool.intern
  rcases h with ⟨hs, rfl⟩ | ⟨hs, n, hn, rfl⟩
  · rw [if_pos hs]
  · simp only [if_neg hs, hn]

theorem names_of_intern (h : intern s p = .ok (w, q)) : q.Names w s := by
  have hi := interned p s
  rw [h] at hi
  cases hi with
  | known hnames => exact hnames
  | new hnew => exact Or.inr ⟨hnew.1, p.size, List.lookup_cons_self, rfl⟩

theorem Names.nulFree (h : p.Names w s) (hp : p.Clean) : NulFree s := (clean_of_intern hp h.intern).2

/-- What the pool has is found in its table. -/
theorem Names.get (h : p.Names w s) (hp : p.Sound) : StringTable.get ⟨p.bytes.toArray⟩ w = .ok s := by
  rcases h with ⟨rfl, rfl⟩ | ⟨-, n, hn, rfl⟩
  · rfl
  · exact hp.found _ (mem_of_lookup hn)

/-- The pool after a string was given to it, which is the pool before where it is refused. -/
def after (p : StringPool) (s : String) : StringPool :=
  match intern s p with
  | .ok (_, q) => q
  | .error _ => p

theorem Names.after (h : p.Names w s) (t : String) : (p.after t).Names w s := by
  have hi := interned p t
  unfold StringPool.after
  generalize StringPool.intern t p = r at hi ⊢
  cases hi with
  | new hnew =>
    rcases h with h | ⟨hs, n, hn, hw⟩
    · exact Or.inl h
    · have hne : s ≠ t := by
        rintro rfl
        rw [hnew.2] at hn
        cases hn
      exact Or.inr ⟨hs, n, by rwa [extended, lookup_cons_ite, if_neg hne], hw⟩
  | _ => exact h

def afterAll (ss : List String) : StringPool := ss.foldl after {}

theorem afterAll_concat (ss : List String) (s : String) : afterAll (ss ++ [s]) = (afterAll ss).after s := List.foldl_concat ..

theorem sound_afterAll (ss : List String) : (afterAll ss).Sound := by
  induction ss using List.reverseRecOn with
  | nil => exact sound_empty
  | append_singleton ss s ih =>
    rw [afterAll_concat, after]
    cases h : intern s (afterAll ss) with
    | error e => exact ih
    | ok r => exact (intern_sound ih h).1

theorem clean_afterAll (ss : List String) : (afterAll ss).Clean := by
  induction ss using List.reverseRecOn with
  | nil => exact fun e he => nomatch he
  | append_singleton ss s ih =>
    rw [afterAll_concat, after]
    cases h : intern s (afterAll ss) with
    | error e => exact ih
    | ok r => exact (clean_of_intern ih h).1

theorem Names.append {ss : List String} (h : (afterAll ss).Names w s) (more : List String) :
    (afterAll (ss ++ more)).Names w s := by
  induction more using List.reverseRecOn with
  | nil => rwa [List.append_nil]
  | append_singleton more t ih =>
    rw [← List.append_assoc, afterAll_concat]
    exact ih.after t

end StringPool

/-! ## The builder -/

/-- What is put behind a list without repeats joins it if it is new. -/
theorem eraseDups_concat {α : Type} [BEq α] [LawfulBEq α] [DecidableEq α] (l : List α) (a : α) :
    (l ++ [a]).eraseDups = if a ∈ l then l.eraseDups else l.eraseDups ++ [a] := by
  rw [List.eraseDups_append]
  by_cases h : a ∈ l <;> simp [List.removeAll, List.eraseDups_cons, h]

namespace TableBuilder

open StringPool

theorem run_get (b : TableBuilder) : (get : Building TableBuilder).run.run b = (.ok b, b) := rfl

/-- What the builder answers, and what it has then. -/
theorem give_eq (b : TableBuilder) (s : String) : (give s).run b =
    if s = "" then (.ok 0, b)
    else
      match b.offsets.lookup s with
      | some w => (.ok w, b)
      | none =>
        if ¬ NulFree s then (.error (.nulInString s), b)
        else if ¬ FitsWord b.bytes.size then (.error .tableTooLong, b)
        else (.ok b.bytes.size.toUInt32,
          ⟨(b.bytes ++ Utf8.ofString s).push 0, (s, b.bytes.size.toUInt32) :: b.offsets⟩) := by
  show (intern s).run.run b = _
  unfold intern
  by_cases hs : s = ""
  · rw [if_pos hs, if_pos hs]
    rfl
  · rw [if_neg hs, if_neg hs, run_bind]
    simp only [run_get]
    cases b.offsets.lookup s with
    | some w => rfl
    | none =>
      have hcontains : (Utf8.ofString s).contains 0 = true ↔ ¬ NulFree s := by
        rw [List.contains_iff_mem, Utf8.zero_mem_ofString, NulFree, not_not]
      by_cases hnul : NulFree s
      · simp only [hcontains, hnul, not_true, if_false]
        rw [run_bind]
        simp only [run_get]
        by_cases hfits : FitsWord b.bytes.size
        · rw [if_neg (not_not_intro hfits), if_neg (not_not_intro hfits)]
          rfl
        · rw [if_pos hfits, if_pos hfits]
          rfl
      · simp only [hcontains, hnul, not_false_iff, if_true]
        rfl

/-- The builder that has taken in what is in the pool. -/
def ofPool (p : StringPool) : TableBuilder := ⟨p.bytes.toArray, p.entries.map fun e => (e.1, e.2.toUInt32)⟩

theorem ofPool_extended (p : StringPool) (s : String) : ofPool (p.extended s) =
    ⟨((ofPool p).bytes ++ Utf8.ofString s).push 0, (s, p.size.toUInt32) :: (ofPool p).offsets⟩ := by
  have hbytes : (p.extended s).bytes.toArray = ((ofPool p).bytes ++ Utf8.ofString s).push 0 := by
    apply Array.toList_inj.mp
    rw [extended, bytes_cons, Array.toList_push, Array.toList_appendList]
    rfl
  exact congrArg (TableBuilder.mk · _) hbytes

/-- A builder with what is in the pool answers as the pool does, and has then what is in the pool then. -/
theorem give_ofPool {p : StringPool} (hp : p.Sound) (s : String) :
    (give s).run (ofPool p) = ((StringPool.intern s p).map (·.1), ofPool (p.after s)) := by
  have hi := interned p s
  have hsize : (ofPool p).bytes.size = p.size := hp.size_eq.symm
  have hlookup : (ofPool p).offsets.lookup s = (p.entries.lookup s).map Nat.toUInt32 := lookup_map_snd ..
  rw [give_eq, hsize, hlookup]
  unfold StringPool.after
  generalize StringPool.intern s p = r at hi ⊢
  cases hi with
  | known hnames =>
    rcases hnames with ⟨hs, rfl⟩ | ⟨hs, n, hn, rfl⟩
    · rw [if_pos hs]
      rfl
    · rw [if_neg hs, hn]
      rfl
  | new hnew hnul hfits =>
    rw [if_neg hnew.1, hnew.2, ofPool_extended]
    simp only [Option.map_none, hnul, hfits, not_true, if_false]
    rfl
  | nul hnew hnul =>
    rw [if_neg hnew.1, hnew.2]
    exact if_pos hnul
  | tooLong hnew hnul hfits =>
    rw [if_neg hnew.1, hnew.2]
    simp only [Option.map_none, hnul, hfits, not_true, not_false_iff, if_false, if_true]
    rfl

def built (ss : List String) : TableBuilder := (asked give ss {}).2

def answerAfter (ss : List String) (s : String) : Except FormatError UInt32 := ((give s).run (built ss)).1

/-- The strings that were answered an offset, of those that were given. -/
def taken (ss : List String) : List String := ((ss.zip (asked give ss {}).1).filter (·.2.isOk)).map (·.1)

theorem built_concat (ss : List String) (s : String) : built (ss ++ [s]) = ((give s).run (built ss)).2 := by
  rw [built, asked_append, asked_cons]
  rfl

theorem built_eq (ss : List String) : built ss = ofPool (afterAll ss) := by
  induction ss using List.reverseRecOn with
  | nil => rfl
  | append_singleton ss s ih => rw [built_concat, ih, give_ofPool (sound_afterAll ss), afterAll_concat]

theorem answerAfter_eq (ss : List String) (s : String) :
    answerAfter ss s = (StringPool.intern s (afterAll ss)).map (·.1) := by
  rw [answerAfter, built_eq, give_ofPool (sound_afterAll ss)]

theorem taken_concat (ss : List String) (s : String) :
    taken (ss ++ [s]) = taken ss ++ if (answerAfter ss s).isOk then [s] else [] := by
  have hanswers : (asked give (ss ++ [s]) {}).1 = (asked give ss {}).1 ++ [answerAfter ss s] := by
    rw [asked_append, asked_cons]
    rfl
  rw [taken, hanswers, List.zip_append (length_asked give ss {}).symm, List.filter_append, List.map_append]
  cases answerAfter ss s with
  | ok w => rfl
  | error e => rfl

theorem names_of_answerAfter {ss : List String} {s : String} {w : UInt32} (h : answerAfter ss s = .ok w)
    (more : List String) : (afterAll (ss ++ s :: more)).Names w s := by
  rw [answerAfter_eq] at h
  obtain ⟨⟨w', q⟩, hq, hw⟩ := map_eq_ok.mp h
  obtain rfl : w' = w := hw
  have hnames : (afterAll (ss ++ [s])).Names w' s := by
    rw [afterAll_concat, StringPool.after, hq]
    exact names_of_intern hq
  have happend := hnames.append more
  rwa [List.append_assoc] at happend

theorem size_built (ss : List String) : (built ss).bytes.size = (afterAll ss).size := by
  rw [built_eq]
  exact (sound_afterAll ss).size_eq.symm

theorem isOk_answerAfter {ss : List String} (hfits : FitsWord (built ss).bytes.size) (s : String) :
    (answerAfter ss s).isOk = true ↔ NulFree s := by
  have hi := interned (afterAll ss) s
  rw [size_built] at hfits
  rw [answerAfter_eq]
  generalize StringPool.intern s (afterAll ss) = r at hi ⊢
  cases hi with
  | known hnames => exact iff_of_true rfl (hnames.nulFree (clean_afterAll ss))
  | new _ hnul => exact iff_of_true rfl hnul
  | nul _ hnul => exact iff_of_false nofun hnul
  | tooLong _ _ hlong => exact absurd hfits hlong

theorem refused_of_answerAfter {ss : List String} {s : String} {e : FormatError} (h : answerAfter ss s = .error e) :
    built (ss ++ [s]) = built ss ∧
      (e = .nulInString s ∧ ¬ NulFree s ∨ e = .tableTooLong ∧ ¬ FitsWord (built ss).bytes.size) := by
  have hi := interned (afterAll ss) s
  rw [size_built, built_eq, built_eq, afterAll_concat, after]
  rw [answerAfter_eq] at h
  generalize StringPool.intern s (afterAll ss) = r at hi h ⊢
  cases hi with
  | known => cases h
  | new => cases h
  | nul _ hnul =>
    cases h
    exact ⟨rfl, Or.inl ⟨rfl, hnul⟩⟩
  | tooLong _ _ hlong =>
    cases h
    exact ⟨rfl, Or.inr ⟨rfl, hlong⟩⟩

/-- Two strings are answered the same offset if they are the same, and only then. -/
theorem answerAfter_eq_iff {ss more : List String} {s s' : String} {w w' : UInt32} (h : answerAfter ss s = .ok w)
    (h' : answerAfter (ss ++ s :: more) s' = .ok w') : w' = w ↔ s' = s := by
  have hnames := names_of_answerAfter h more
  have hnames' := names_of_answerAfter h' []
  constructor
  · rintro rfl
    have hsound := sound_afterAll (ss ++ s :: more ++ [s'])
    have hget := (hnames.append [s']).get hsound
    rw [hnames'.get hsound] at hget
    exact Except.ok.inj hget
  · rintro rfl
    rw [answerAfter_eq, hnames.intern] at h'
    exact (Except.ok.inj h').symm

/-- The pool has the strings that were taken, each where it was given first. -/
theorem keys_afterAll (ss : List String) :
    ((afterAll ss).entries.map (·.1)).reverse = ((taken ss).filter (· ≠ "")).eraseDups := by
  induction ss using List.reverseRecOn with
  | nil => rfl
  | append_singleton ss s ih =>
    have hmem : s ∈ (taken ss).filter (· ≠ "") ↔ ((afterAll ss).entries.lookup s).isSome := by
      rw [lookup_isSome_iff, ← List.mem_eraseDups, ← ih, List.mem_reverse]
    have hi := interned (afterAll ss) s
    rw [taken_concat, answerAfter_eq, afterAll_concat, after, List.filter_append]
    generalize StringPool.intern s (afterAll ss) = r at hi ⊢
    cases hi with
    | known hnames =>
      rcases hnames with ⟨rfl, -⟩ | ⟨hs, n, hn, -⟩
      · show _ = ((taken ss).filter (· ≠ "") ++ []).eraseDups
        rw [List.append_nil]
        exact ih
      · have hfilter : [s].filter (· ≠ "") = [s] := by simp [hs]
        show _ = ((taken ss).filter (· ≠ "") ++ [s].filter (· ≠ "")).eraseDups
        rw [hfilter, eraseDups_concat, if_pos (hmem.mpr (by rw [hn]; rfl))]
        exact ih
    | new hnew =>
      have hfilter : [s].filter (· ≠ "") = [s] := by simp [hnew.1]
      show (s :: (afterAll ss).entries.map (·.1)).reverse = ((taken ss).filter (· ≠ "") ++ [s].filter (· ≠ "")).eraseDups
      rw [hfilter, eraseDups_concat, if_neg (by rw [hmem, hnew.2]; simp), List.reverse_cons, ih]
    | _ =>
      show _ = ((taken ss).filter (· ≠ "") ++ []).eraseDups
      rw [List.append_nil]
      exact ih

theorem toList_built (ss : List String) : (built ss).bytes.toList =
    0 :: ((taken ss).filter (· ≠ "")).eraseDups.flatMap fun s => Utf8.ofString s ++ [0] := by
  rw [← keys_afterAll, built_eq, ← List.map_reverse, List.flatMap_map]
  rfl

end TableBuilder

/-! ## The reader -/

namespace StringTable

variable {t : StringTable}

theorem ofBytes_toArray (p : StringPool) : ofBytes p.bytes.toArray = .ok ⟨p.bytes.toArray⟩ := rfl

/-- With what is remembered, an offset is answered as without. -/
theorem keeps_recalled (t : StringTable) (w : UInt32) :
    Keeps (fun memo : Memo => ∀ e ∈ memo, t.get e.1 = .ok e.2) (t.recalled w) (t.get w) := by
  intro memo hmemo
  by_cases h0 : w = 0
  · rw [recalled, if_pos h0, get, if_pos h0]
    exact ⟨rfl, hmemo⟩
  · have hget : (getThe Memo : ExceptT FormatError (StateM Memo) Memo).run.run memo = (.ok memo, memo) := rfl
    rw [recalled, if_neg h0, run_bind, hget]
    cases hl : memo.lookup w with
    | some s =>
      simp only [hl]
      rw [hmemo _ (mem_of_lookup hl)]
      exact ⟨rfl, hmemo⟩
    | none =>
      simp only [hl]
      rw [run_bind, run_liftM]
      cases hs : t.get w with
      | error e => exact ⟨rfl, hmemo⟩
      | ok s =>
        refine ⟨rfl, ?_⟩
        intro e he
        rcases List.mem_cons.mp he with rfl | he
        · exact hs
        · exact hmemo e he

/-- Offsets that are looked up one after another, in whatever order, are answered as each for itself. -/
theorem asked_look (t : StringTable) (ws : List UInt32) : (asked t.look ws []).1 = ws.map t.get :=
  asked_of_keeps t.keeps_recalled ws [] fun _ he => nomatch he

end StringTable

/-- An index that is asked remembers its strings as its table does. -/
theorem OpenIndex.run_recallString (x : OpenIndex) (w : UInt32) (m : Memory) :
    (x.recallString w).run.run m =
      ((((x.strings.recalled w).run.run m.strings).1).mapError .format,
        { m with strings := ((x.strings.recalled w).run.run m.strings).2 }) := by
  by_cases h0 : w = 0
  · rw [recallString, if_pos h0, StringTable.recalled, if_pos h0]
    rfl
  · have hget : (get : Session Memory).run.run m = (.ok m, m) := rfl
    have hmemo : (getThe StringTable.Memo : ExceptT FormatError (StateM StringTable.Memo) StringTable.Memo).run.run m.strings =
      (.ok m.strings, m.strings) := rfl
    rw [recallString, if_neg h0, run_bind, hget, StringTable.recalled, if_neg h0, run_bind, hmemo]
    cases hl : m.strings.lookup w with
    | some s =>
      simp only [hl]
      rfl
    | none =>
      simp only [hl]
      rw [run_bind, ofField, run_liftM, run_bind, run_liftM]
      cases x.strings.get w with
      | error e => rfl
      | ok s => rfl

/-! ## The dictionary -/

section

open TableBuilder StringPool

/-- An offset that was answered is looked up in every later table. -/
theorem look_of_answerAfter {ss more : List String} {s : String} {w : UInt32} (h : answerAfter ss s = .ok w) :
    ∃ t, StringTable.ofBytes (built (ss ++ s :: more)).bytes = .ok t ∧
      ∀ (ws : List UInt32) (i : Nat), ws[i]? = some w → (asked t.look ws []).1[i]? = some (.ok s) := by
  have hget := (names_of_answerAfter h more).get (sound_afterAll _)
  refine ⟨_, by rw [built_eq]; exact StringTable.ofBytes_toArray _, ?_⟩
  intro ws i hw
  rw [StringTable.asked_look, List.getElem?_map, hw, Option.map_some, hget]

/-- Whatever strings `ss` were given to the builder, the next one is answered an offset exactly if it has no zero in it,
as long as the table's size is a word; where it is not, nothing is changed and the reason is told. Its offset is looked
up in the table of every later builder, among whatever other offsets, and is that of no other string. The table is the
byte of the empty string and the strings that were taken, each once, where it was given first. -/
theorem interning_faithful (ss : List String) (s : String) :
    (FitsWord (built ss).bytes.size → ((answerAfter ss s).isOk = true ↔ NulFree s)) ∧
    (∀ e, answerAfter ss s = .error e → built (ss ++ [s]) = built ss ∧
      (e = .nulInString s ∧ ¬ NulFree s ∨ e = .tableTooLong ∧ ¬ FitsWord (built ss).bytes.size)) ∧
    (∀ w, answerAfter ss s = .ok w → ∀ more,
      (∃ t, StringTable.ofBytes (built (ss ++ s :: more)).bytes = .ok t ∧
        ∀ (ws : List UInt32) (i : Nat), ws[i]? = some w → (asked t.look ws []).1[i]? = some (.ok s)) ∧
      ∀ s' w', answerAfter (ss ++ s :: more) s' = .ok w' → (w' = w ↔ s' = s)) ∧
    (built ss).bytes.toList = 0 :: ((taken ss).filter (· ≠ "")).eraseDups.flatMap fun s => Utf8.ofString s ++ [0] := by
  refine ⟨fun hfits => isOk_answerAfter hfits s, fun e he => refused_of_answerAfter he, ?_, toList_built ss⟩
  intro w hw more
  exact ⟨look_of_answerAfter hw, fun s' w' hw' => answerAfter_eq_iff hw hw'⟩

/-- A string with a zero in it is refused, and one that is given again is known. -/
def sampleGiven : List String := ["fmt", "a\x00b", "", "os", "fmt"]

theorem sampleGiven_faithful : FitsWord (built sampleGiven).bytes.size ∧ answerAfter sampleGiven "os" = .ok 5 ∧
    (built sampleGiven).bytes.toList = [0, 102, 109, 116, 0, 111, 115, 0] ∧
    (answerAfter sampleGiven "b\x00").isOk = false ∧ built (sampleGiven ++ ["b\x00"]) = built sampleGiven ∧
    ∃ t, StringTable.ofBytes (built (sampleGiven ++ ["os", "é"])).bytes = .ok t ∧
      (asked t.look [8, 5, 2, 5] []).1[3]? = some (.ok "os") := by
  have hfits : FitsWord (built sampleGiven).bytes.size := by decide +kernel
  have hos : answerAfter sampleGiven "os" = .ok 5 := by decide +kernel
  have hnul : answerAfter sampleGiven "b\x00" = .error (.nulInString "b\x00") := by decide +kernel
  obtain ⟨-, -, hlook, htable⟩ := interning_faithful sampleGiven "os"
  obtain ⟨-, hrefused, -, -⟩ := interning_faithful sampleGiven "b\x00"
  obtain ⟨⟨t, ht, hall⟩, -⟩ := hlook 5 hos ["é"]
  refine ⟨hfits, hos, ?_, by rw [hnul]; rfl, (hrefused _ hnul).1, t, ht, hall [8, 5, 2, 5] 3 rfl⟩
  rw [htable]
  decide +kernel

end

end PackageIndex
