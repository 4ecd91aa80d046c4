/-
  PackageIndex.Proofs.Cgo.Safety — the characters that reach the tools that build C.

  An argument is let through if it is of safe characters, with the directory in it where it asks
  for that. Only then are its paths made absolute, and the directory that is put before a relative
  path is not looked at. So what is added is the argument, or a path below the directory.

  - `isSafeText_expand`: what is let through is safe.
  - `added_of_mem_absolutePaths`: what becomes of it when paths are made absolute.
  - `apply_adds_safe_iff`: what a comment adds, and that it is safe for every comment exactly if
    the directory is.
  - `apply_adds_unsafe`: a directory that is refused in an argument and put before a path.
-/

import PackageIndex.Proofs.Cgo.Apply
import PackageIndex.Proofs.Text.Letter

namespace PackageIndex.Cgo

/-! ## Safe texts -/

def safeCharacters : List Char :=
  "+-.,/0123456789=ABCDEFGHIJKLMNOPQRSTUVWXYZ_abcdefghijklmnopqrstuvwxyz:$@%! ~^".toList

def AllSafe (s : List Char) : Prop := ∀ c ∈ s, 0x80 ≤ c.toNat ∨ c ∈ safeCharacters

instance (s : List Char) : Decidable (AllSafe s) := List.decidableBAll _ s

def IsSafeText (s : List Char) : Prop := s ≠ [] ∧ AllSafe s

instance (s : List Char) : Decidable (IsSafeText s) := inferInstanceAs (Decidable (s ≠ [] ∧ AllSafe s))

variable {s t option path arg : List Char} {c : Char} {dir : String}

theorem isSafe_iff : isSafe c = true ↔ 0x80 ≤ c.toNat ∨ c ∈ safeCharacters := by
  by_cases hc : 0x80 ≤ c.toNat
  · simp [isSafe, hc]
  · have hascii : ∀ n < 0x80, isSafe (Char.ofNat n) = true ↔ Char.ofNat n ∈ safeCharacters := by decide +kernel
    have hlisted : isSafe c = true ↔ c ∈ safeCharacters :=
      of_ascii (P := fun c => isSafe c = true ↔ c ∈ safeCharacters) hascii (by omega)
    rw [hlisted]
    exact ⟨.inr, fun h => h.resolve_left hc⟩

theorem isSafeName_iff : isSafeName s = true ↔ IsSafeText s := by
  simp only [isSafeName, Bool.and_eq_true, decide_eq_true_eq, List.all_eq_true, isSafe_iff]
  exact Iff.rfl

theorem allSafe_append : AllSafe (s ++ t) ↔ AllSafe s ∧ AllSafe t := List.forall_mem_append

/-- What is let through is safe, the directory in it included. -/
theorem isSafeText_expand {dir : List Char} (h : (expand dir arg).2 = true) : IsSafeText (expand dir arg).1 := by
  unfold expand at h ⊢
  simp only at h ⊢
  split at h
  · rename_i hone
    rw [if_pos hone]
    exact isSafeName_iff.mp h
  · rename_i hmore
    rw [if_neg hmore]
    simp only [Bool.and_eq_true, List.all_eq_true, Bool.or_eq_true, decide_eq_true_eq, List.mem_cons, isSafeName_iff] at h
    obtain ⟨hparts, hne⟩ := h
    refine ⟨hne, fun c hc => ?_⟩
    have hsafe (part : List Char) (hpart : part = [] ∨ IsSafeText part) (hmem : c ∈ part) :
        0x80 ≤ c.toNat ∨ c ∈ safeCharacters := by
      rcases hpart with rfl | hpart
      · cases hmem
      · exact hpart.2 c hmem
    rcases mem_of_mem_intercalate hc with hc | ⟨chunk, hchunk, hc⟩
    · exact hsafe _ (hparts _ (.inl rfl)) hc
    · exact hsafe chunk (hparts chunk (.inr hchunk)) hc

/-! ## Paths -/

theorem absolute_of_isAbsolute (h : Path.isAbsolute (String.ofList path) = true) : absolute dir path = path := by
  simp [absolute, Path.join, h]

/-- A relative path stands behind the directory, with a slash between them where there is none. -/
theorem absolute_of_relative (dir : String) (h : Path.isAbsolute (String.ofList path) = false) :
    ∃ slash, (slash = [] ∨ slash = ['/']) ∧ absolute dir path = dir.toList ++ slash ++ path := by
  unfold absolute Path.join
  rw [h]
  by_cases hend : dir = "" ∨ dir.toList.getLast? = some '/'
  · exact ⟨[], .inl rfl, by simp [hend]⟩
  · exact ⟨['/'], .inr rfl, by simp [hend]⟩

theorem eq_of_joined (h : PathOption.ofArg arg = .joined option path) :
    arg = option ++ path ∧ path ≠ [] ∧ (option = ['-', 'I'] ∨ option = ['-', 'L']) := by
  unfold PathOption.ofArg at h
  split at h
  · rename_i c rest
    split at h
    · rename_i hletter
      split at h
      · cases h
      · rename_i hne
        cases h
        exact ⟨rfl, hne, by rcases hletter with rfl | rfl <;> simp⟩
    · cases h
  · cases h

/-- A relative path of safe characters, behind the option that it belongs to or on its own, taken below the directory. -/
def IsBelow (dir : String) (s : List Char) : Prop :=
  ∃ option path, (option = [] ∨ option = ['-', 'I'] ∨ option = ['-', 'L']) ∧ IsSafeText path ∧
    Path.isAbsolute (String.ofList path) = false ∧ s = option ++ absolute dir path

theorem IsBelow.ne_nil (h : IsBelow dir s) : s ≠ [] := by
  obtain ⟨option, path, -, hpath, hrelative, rfl⟩ := h
  obtain ⟨slash, -, heq⟩ := absolute_of_relative dir hrelative
  rw [heq]
  simp [hpath.1]

/-- Such a path is safe if the directory is, and only then. -/
theorem IsBelow.allSafe_iff (h : IsBelow dir s) : AllSafe s ↔ AllSafe dir.toList := by
  obtain ⟨option, path, hoption, hpath, hrelative, rfl⟩ := h
  obtain ⟨slash, hslash, heq⟩ := absolute_of_relative dir hrelative
  have hoption : AllSafe option := by rcases hoption with rfl | rfl | rfl <;> decide
  have hslash : AllSafe slash := by rcases hslash with rfl | rfl <;> decide
  rw [heq, allSafe_append, allSafe_append, allSafe_append]
  constructor
  · intro hall
    exact hall.2.1.1
  · intro hdir
    exact ⟨hoption, ⟨hdir, hslash⟩, hpath.2⟩

theorem safe_or_below (option : List Char) (hoption : option = [] ∨ option = ['-', 'I'] ∨ option = ['-', 'L'])
    (hpath : path ≠ []) (hsafe : AllSafe (option ++ path)) :
    IsSafeText (option ++ absolute dir path) ∨ IsBelow dir (option ++ absolute dir path) := by
  cases habsolute : Path.isAbsolute (String.ofList path) with
  | true =>
    rw [absolute_of_isAbsolute habsolute]
    exact .inl ⟨by simp [hpath], hsafe⟩
  | false => exact .inr ⟨option, path, hoption, ⟨hpath, (allSafe_append.mp hsafe).2⟩, habsolute, rfl⟩

theorem added_of_mem_absolutePaths {afterFlag : Bool} {args : List (List Char)} (h : ∀ a ∈ args, IsSafeText a) :
    ∀ s ∈ absolutePaths dir afterFlag args, IsSafeText s ∨ IsBelow dir s := by
  fun_induction absolutePaths dir afterFlag args with
  | case1 => exact List.forall_mem_nil _
  | case2 arg args ih =>
    obtain ⟨harg, hargs⟩ := List.forall_mem_cons.mp h
    exact List.forall_mem_cons.mpr ⟨safe_or_below [] (.inl rfl) harg.1 harg.2, ih hargs⟩
  | case3 arg args hflag ih =>
    obtain ⟨harg, hargs⟩ := List.forall_mem_cons.mp h
    exact List.forall_mem_cons.mpr ⟨.inl harg, ih hargs⟩
  | case4 arg args option path hjoined ih =>
    obtain ⟨harg, hargs⟩ := List.forall_mem_cons.mp h
    obtain ⟨rfl, hne, hoption⟩ := eq_of_joined hjoined
    exact List.forall_mem_cons.mpr ⟨safe_or_below option (.inr hoption) hne harg.2, ih hargs⟩
  | case5 arg args hnone ih =>
    obtain ⟨harg, hargs⟩ := List.forall_mem_cons.mp h
    exact List.forall_mem_cons.mpr ⟨.inl harg, ih hargs⟩

namespace Flags

/-! ## Flags -/

def list (f : Flags) : Verb → List String
  | .cflags => f.cflags
  | .cppflags => f.cppflags
  | .cxxflags => f.cxxflags
  | .fflags => f.fflags
  | .ldflags => f.ldflags
  | .pkgConfig => f.pkgConfig

/-- What may be added to the list of a verb. -/
def MayAdd (dir : String) (verb : Verb) (s : List Char) : Prop := IsSafeText s ∨ verb ≠ .pkgConfig ∧ IsBelow dir s

theorem MayAdd.ne_empty {verb : Verb} {s : String} (h : MayAdd dir verb s.toList) : s ≠ "" := by
  rintro rfl
  rcases h with hsafe | ⟨-, hbelow⟩
  · exact hsafe.1 rfl
  · exact hbelow.ne_nil rfl

def Admitted (dir : String) (f : Flags) : Prop := ∀ verb, ∀ s ∈ f.list verb, MayAdd dir verb s.toList

variable {ctx : BuildContext} {line : List Char} {f g : Flags}

theorem list_append (f g : Flags) (verb : Verb) : (f ++ g).list verb = f.list verb ++ g.list verb := by
  cases verb <;> rfl

theorem admitted_empty (dir : String) : Admitted dir {} := by
  intro verb s hs
  cases verb <;> cases hs

theorem Admitted.append (hf : Admitted dir f) (hg : Admitted dir g) : Admitted dir (f ++ g) := by
  intro verb s hs
  rw [list_append] at hs
  rcases List.mem_append.mp hs with hs | hs
  · exact hf verb s hs
  · exact hg verb s hs

theorem mem_list_flags {verb verb' : Verb} {args : List (List Char)} {s : String} (h : s ∈ (verb.flags dir args).list verb') :
    verb' = verb ∧ s.toList ∈ if verb = .pkgConfig then args else absolutePaths dir false args := by
  cases verb <;> cases verb' <;> simp [Verb.flags, extend, Verb.strings, list] at h ⊢ <;> (obtain ⟨a, ha, rfl⟩ := h; simpa using ha)

theorem admitted_flags {verb : Verb} {args : List (List Char)} (h : ∀ a ∈ args, IsSafeText a) :
    Admitted dir (verb.flags dir args) := by
  intro verb' s hs
  obtain ⟨rfl, hmem⟩ := mem_list_flags hs
  by_cases hverb : verb' = .pkgConfig
  · rw [if_pos hverb] at hmem
    exact .inl (h _ hmem)
  · rw [if_neg hverb] at hmem
    rcases added_of_mem_absolutePaths h _ hmem with hsafe | hbelow
    · exact .inl hsafe
    · exact .inr ⟨hverb, hbelow⟩

theorem admitted_ofLine (h : ofLine ctx dir line = .ok f) : Admitted dir f := by
  cases comesTo_iff.mpr h with
  | other => exact admitted_empty dir
  | unmet => exact admitted_empty dir
  | asks _ _ _ hall _ =>
    apply admitted_flags
    intro a ha
    obtain ⟨arg, harg, rfl⟩ := List.mem_map.mp ha
    exact isSafeText_expand (hall arg harg)

theorem admitted_ofLines (ctx : BuildContext) (dir : String) (lines : List (List Char)) :
    Admitted dir (ofLines ctx dir lines).1 := by
  induction lines with
  | nil => exact admitted_empty dir
  | cons line lines ih =>
    rw [ofLines]
    cases hline : ofLine ctx dir line with
    | error e => exact admitted_empty dir
    | ok flags => exact (admitted_ofLine hline).append ih

def includeLine : List Char := "#cgo CFLAGS: -Ix".toList

theorem ofLine_includeLine (ctx : BuildContext) (dir : String) :
    ofLine ctx dir includeLine = .ok { cflags := [String.ofList (['-', 'I'] ++ absolute dir ['x'])] } := by
  have hparts : HasParts includeLine [] "CFLAGS".toList " -Ix".toList :=
    ⟨"CFLAGS: -Ix".toList, "CFLAGS".toList, by decide +kernel, by decide +kernel, by decide +kernel⟩
  have hwords : shellWords? " -Ix".toList = some [['-', 'I', 'x']] := by decide +kernel
  have hexpand : expand dir.toList ['-', 'I', 'x'] = (['-', 'I', 'x'], true) := by
    have hchunks : cutAll '$' "\x7bSRCDIR\x7d".toList ['-', 'I', 'x'] = [['-', 'I', 'x']] := by decide +kernel
    have hsafe : isSafeName ['-', 'I', 'x'] = true := by decide
    unfold expand
    simp only [hchunks, hsafe, List.length_singleton]
    rfl
  have hall : ∀ a ∈ [['-', 'I', 'x']], (expand dir.toList a).2 = true :=
    List.forall_mem_singleton.mpr (congrArg Prod.snd hexpand)
  have hcomes : ComesTo ctx dir includeLine _ := .asks hparts (.inl rfl) hwords hall (v := .cflags) (by decide)
  rw [ofLine_of_comesTo hcomes, List.map_singleton, hexpand]
  rfl

theorem ofPreamble_includeLine (ctx : BuildContext) (dir : String) :
    (ofPreamble ctx dir (String.ofList includeLine)).1 = { cflags := [String.ofList (['-', 'I'] ++ absolute dir ['x'])] } := by
  have hlines : includeLine.splitOn '\n' = [includeLine] := by decide +kernel
  rw [ofPreamble, String.toList_ofList, hlines]
  simp only [ofLines, ofLine_includeLine, append_empty]

/-! ## Comments -/

/-- A comment adds arguments of safe characters, and relative paths of safe characters below the directory. So what is
added is safe for every comment if the directory is, and only then. -/
theorem apply_adds_safe_iff (ctx : BuildContext) (filename dir : String) (f : Flags) :
    (∀ preamble, ∃ added, (apply ctx filename dir f preamble).1 = f ++ added ∧
      ∀ verb, ∀ s ∈ added.list verb, s ≠ "" ∧ MayAdd dir verb s.toList) ∧
    ((∀ preamble, ∃ added, (apply ctx filename dir f preamble).1 = f ++ added ∧
      ∀ verb, ∀ s ∈ added.list verb, IsSafeText s.toList) ↔ AllSafe dir.toList) := by
  have hadded (preamble : String) : (apply ctx filename dir f preamble).1 = f ++ (ofPreamble ctx dir preamble).1 := by
    rw [apply_eq]
  have hadmitted (preamble : String) : Admitted dir (ofPreamble ctx dir preamble).1 :=
    admitted_ofLines ctx dir (preamble.toList.splitOn '\n')
  refine ⟨fun preamble => ⟨_, hadded preamble, fun verb s hs => ?_⟩, fun h => ?_, fun h preamble => ?_⟩
  · have hmay := hadmitted preamble verb s hs
    exact ⟨hmay.ne_empty, hmay⟩
  · obtain ⟨added, heq, hsafe⟩ := h (String.ofList includeLine)
    have hasked := congrArg (fun flags : Flags => flags.list .cflags) ((hadded _).symm.trans heq)
    simp only [list_append, List.append_cancel_left_eq, ofPreamble_includeLine] at hasked
    have hbelow : IsBelow dir (['-', 'I'] ++ absolute dir ['x']) :=
      ⟨['-', 'I'], ['x'], .inr (.inl rfl), by decide, by decide, rfl⟩
    have hmem : String.ofList (['-', 'I'] ++ absolute dir ['x']) ∈ added.list .cflags := by
      rw [← hasked]
      exact List.mem_singleton_self _
    have hincluded := (hsafe .cflags _ hmem).2
    rw [String.toList_ofList] at hincluded
    exact hbelow.allSafe_iff.mp hincluded
  · refine ⟨_, hadded preamble, fun verb s hs => ?_⟩
    rcases hadmitted preamble verb s hs with hsafe | ⟨-, hbelow⟩
    · exact hsafe
    · exact ⟨hbelow.ne_nil, hbelow.allSafe_iff.mpr h⟩

/-- The directory is of safe characters, one of them a space. The first argument is put below it, the last one asks for it. -/
theorem sampleArguments_added : AllSafe "/s p".toList ∧ ∃ added : Flags,
    (apply .host "a.go" "/s p" {} "#cgo LDFLAGS: -Llib -lé $\x7bSRCDIR\x7d/o").1 = {} ++ added ∧
      added.list .ldflags = ["-L/s p/lib", "-lé", "/s p/o"] ∧ MayAdd "/s p" .ldflags "-L/s p/lib".toList ∧
        ∀ s ∈ added.list .ldflags, IsSafeText s.toList := by
  have hdir : AllSafe "/s p".toList := by decide
  have hadds := apply_adds_safe_iff .host "a.go" "/s p" {}
  obtain ⟨added, hadded, hsafe⟩ := hadds.2.mpr hdir "#cgo LDFLAGS: -Llib -lé $\x7bSRCDIR\x7d/o"
  obtain ⟨added', hadded', hmay⟩ := hadds.1 "#cgo LDFLAGS: -Llib -lé $\x7bSRCDIR\x7d/o"
  rw [empty_append] at hadded hadded'
  have hlist : added'.list .ldflags = ["-L/s p/lib", "-lé", "/s p/o"] := by
    rw [← hadded']
    decide +kernel
  have hmem : "-L/s p/lib" ∈ added'.list .ldflags := by
    rw [hlist]
    exact List.mem_cons_self
  obtain rfl : added = added' := hadded.symm.trans hadded'
  exact ⟨hdir, added, by rw [empty_append, hadded], hlist, (hmay .ldflags _ hmem).2, hsafe .ldflags⟩

/-- A directory that is refused where an argument asks for it is put before a path all the same. -/
theorem apply_adds_unsafe : ¬ IsSafeText "-I/s;p/x".toList ∧
    apply .host "a.go" "/s;p" {} "#cgo CFLAGS: -Ix" = ({ cflags := ["-I/s;p/x"] }, none) ∧
    apply .host "a.go" "/s;p" {} "#cgo CFLAGS: -I$\x7bSRCDIR\x7d/x" =
      ({}, some "a.go: malformed #cgo argument: -I/s;p/x") := by
  refine ⟨by decide, by decide +kernel, by decide +kernel⟩

end Flags

end PackageIndex.Cgo
