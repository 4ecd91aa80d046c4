/-
  PackageIndex.Proofs.Path — the path of a directory below a root.

  A directory below a root is reached by names that are joined to the root's path one after
  another. Each name is one component more, however the root is spelt, so what is found
  below the root are the names again (`relative?_foldl`), behind those of the root itself
  where it is a relative path. The path that is found is spelt by names alone, and is found
  again as it is (`relative?_relative?`).
-/

import PackageIndex.Path
import PackageIndex.Proofs.Text.Parts

namespace PackageIndex.Path

structure IsName (s : String) : Prop where
  ne_empty : s ≠ ""
  ne_dot : s ≠ "."
  ne_dots : s ≠ ".."
  no_slash : '/' ∉ s.toList
  no_nul : '\x00' ∉ s.toList

instance (s : String) : Decidable (IsName s) :=
  decidable_of_iff (s ≠ "" ∧ s ≠ "." ∧ s ≠ ".." ∧ '/' ∉ s.toList ∧ '\x00' ∉ s.toList)
    ⟨fun ⟨hempty, hdot, hdots, hslash, hnul⟩ => ⟨hempty, hdot, hdots, hslash, hnul⟩,
      fun h => ⟨h.ne_empty, h.ne_dot, h.ne_dots, h.no_slash, h.no_nul⟩⟩

variable {p name : String}

/-! ## Joining a name -/

theorem toList_ne_nil (h : p ≠ "") : p.toList ≠ [] := by simpa using h

theorem toList_join (d p : String) : (join d p).toList = joinedBy '/' d.toList p.toList := by
  have hslash : ∀ t : String, (d ++ "/" ++ t).toList = d.toList ++ '/' :: t.toList := by simp
  unfold join joinedBy isAbsolute
  simp only [beq_iff_eq, String.toList_eq_nil_iff]
  split
  · rfl
  · split
    · exact String.toList_append
    · exact hslash p

theorem join_ne_empty (h : IsName name) (hp : p ≠ "") : join p name ≠ "" := by
  intro he
  have hjoin := toList_join p name
  rw [he] at hjoin
  exact joinedBy_ne_nil (toList_ne_nil hp) h.no_slash hjoin.symm

theorem isAbsolute_join (h : IsName name) (hp : p ≠ "") : isAbsolute (join p name) = isAbsolute p := by
  rw [isAbsolute, toList_join, head?_joinedBy (toList_ne_nil hp) h.no_slash, isAbsolute]

/-- A name is the last piece of what it is joined to; an empty piece in front of it is gone. -/
theorem pieces_join (h : IsName name) (hp : p ≠ "") :
    ∃ a front, (pieces p = a :: front ∨ pieces p = a :: front ++ [[]]) ∧
      pieces (join p name) = a :: front ++ [name.toList] := by
  unfold pieces
  rw [toList_join]
  exact splitOn_joinedBy (toList_ne_nil hp) h.no_slash

theorem ofPiece?_of_isName (h : IsName name) : Component.ofPiece? name.toList = some (.name name) := by
  have hne : name.toList ≠ [] := toList_ne_nil h.ne_empty
  have hdot : name.toList ≠ ['.'] := fun he => h.ne_dot (String.toList_inj.mp he)
  have hdots : name.toList ≠ ['.', '.'] := fun he => h.ne_dots (String.toList_inj.mp he)
  simp [Component.ofPiece?, hne, hdot, hdots]

theorem components_join (h : IsName name) (hp : p ≠ "") : components (join p name) = components p ++ [.name name] := by
  obtain ⟨a, front, hpieces, hj⟩ := pieces_join h hp
  have hhead : (pieces p).head? = some a := by
    rcases hpieces with hpieces | hpieces <;> rw [hpieces] <;> rfl
  have hinner : (pieces p).filterMap Component.ofPiece? = (a :: front).filterMap Component.ofPiece? := by
    rcases hpieces with hpieces | hpieces
    · rw [hpieces]
    · rw [hpieces, List.filterMap_append]
      simp [Component.ofPiece?]
  have hjoin : (pieces (join p name)).filterMap Component.ofPiece? =
      (a :: front).filterMap Component.ofPiece? ++ [.name name] := by
    rw [hj, List.filterMap_append]
    simp [ofPiece?_of_isName h]
  have hheadj : (pieces (join p name)).head? = some a := by rw [hj]; rfl
  unfold components
  simp only [isAbsolute_join h hp, hjoin, hinner, hhead, hheadj]
  by_cases habs : isAbsolute p = true
  · simp [habs]
  · by_cases hdot : a = ['.'] <;> simp [habs, hdot]

/-! ## Names below a root -/

section

variable {root : String} {names : List String}

theorem components_foldl (h : ∀ n ∈ names, IsName n) (hp : p ≠ "") :
    components (names.foldl join p) = components p ++ names.map .name ∧
      isAbsolute (names.foldl join p) = isAbsolute p := by
  induction names generalizing p with
  | nil => simp
  | cons n names ih =>
    have hn := h n List.mem_cons_self
    obtain ⟨hcs, habs⟩ := ih (fun m hm => h m (List.mem_cons_of_mem _ hm)) (join_ne_empty hn hp)
    rw [List.foldl_cons, hcs, habs, components_join hn hp, isAbsolute_join hn hp]
    simp

theorem names?_append (cs : List Component) (names : List String) :
    names? (cs ++ names.map .name) = (names? cs).map (· ++ names) := by
  induction cs with
  | nil =>
    induction names with
    | nil => rfl
    | cons n names ih =>
      simp only [List.nil_append] at ih ⊢
      simp [names?, ih]
  | cons c cs ih =>
    cases c with
    | here => simpa [names?] using ih
    | name s =>
      simp only [List.cons_append, names?, ih, Option.map_map]
      rfl
    | _ => rfl

theorem relativeNames?_self (h : isAbsolute root = true) : relativeNames? root root = some [] := by
  have hself := isPrefixOf?_append (components root) []
  rw [List.append_nil] at hself
  rw [relativeNames?, if_pos h, hself]
  rfl

/-- Below a root stand the names that were joined to it, behind those found below itself. -/
theorem relativeNames?_foldl (h : ∀ n ∈ names, IsName n) (hroot : root ≠ "") :
    relativeNames? root (names.foldl join root) = (relativeNames? root root).map (· ++ names) := by
  obtain ⟨hcs, habs⟩ := components_foldl h hroot
  by_cases hr : isAbsolute root = true
  · rw [relativeNames?_self hr, relativeNames?, hcs, habs, if_pos hr, isPrefixOf?_append]
    exact names?_append [] names
  · rw [relativeNames?, relativeNames?, hcs, habs, if_neg hr, if_neg hr, names?_append]

end

/-! ## What a path is made of -/

/-- What a slash can stand before or behind. -/
def IsPart (s : String) : Prop := s ≠ "" ∧ '/' ∉ s.toList

theorem IsName.isPart (h : IsName name) : IsPart name := ⟨h.ne_empty, h.no_slash⟩

theorem not_mem_of_mem_splitOn {l piece : List Char} (h : piece ∈ l.splitOn '/') : '/' ∉ piece := by
  rw [List.splitOn_eq_splitOnP] at h
  intro hmem
  simpa using not_of_mem_splitOnP h '/' hmem

/-- A name among the components of a path is one of its pieces. -/
theorem piece_of_mem_components {s : String} (h : .name s ∈ components p) :
    s.toList ∈ pieces p ∧ Component.ofPiece? s.toList = some (.name s) := by
  have hinner : .name s ∈ (pieces p).filterMap Component.ofPiece? := by
    unfold components at h
    split at h
    · simpa using h
    · split at h <;> simpa using h
  obtain ⟨piece, hmem, hpiece⟩ := List.mem_filterMap.mp hinner
  have hs : piece = s.toList := by
    unfold Component.ofPiece? at hpiece
    split at hpiece
    · cases hpiece
    · split at hpiece
      · cases hpiece
      · cases hpiece
        exact String.toList_ofList.symm
  subst hs
  exact ⟨hmem, hpiece⟩

theorem ne_empty_of_ofPiece? {s : String} (h : Component.ofPiece? s.toList = some (.name s)) : s ≠ "" := by
  rintro rfl
  cases h

theorem isPart_of_mem_components {s : String} (h : .name s ∈ components p) : IsPart s := by
  obtain ⟨hmem, hpiece⟩ := piece_of_mem_components h
  exact ⟨ne_empty_of_ofPiece? hpiece, not_mem_of_mem_splitOn hmem⟩

theorem mem_of_names? {cs : List Component} {names : List String} (h : names? cs = some names) :
    ∀ s ∈ names, .name s ∈ cs := by
  induction cs generalizing names with
  | nil =>
    cases h
    simp
  | cons c cs ih =>
    intro s hs
    cases c with
    | here => exact List.mem_cons_of_mem _ (ih h s hs)
    | name n =>
      obtain ⟨more, hmore, rfl⟩ := Option.map_eq_some_iff.mp h
      rcases List.mem_cons.mp hs with rfl | hs
      · exact List.mem_cons_self
      · exact List.mem_cons_of_mem _ (ih hmore s hs)
    | _ => cases h

theorem root_not_mem_components (h : isAbsolute p = false) : .root ∉ components p := by
  have hinner : .root ∉ (pieces p).filterMap Component.ofPiece? := by
    intro hmem
    obtain ⟨piece, -, hpiece⟩ := List.mem_filterMap.mp hmem
    unfold Component.ofPiece? at hpiece
    split at hpiece
    · cases hpiece
    · split at hpiece <;> cases hpiece
  unfold components
  rw [if_neg (by simp [h])]
  split
  · simpa using hinner
  · exact hinner

theorem exists_names? {cs : List Component} (hroot : .root ∉ cs) (hup : .up ∉ cs) : ∃ names, names? cs = some names := by
  induction cs with
  | nil => exact ⟨[], rfl⟩
  | cons c cs ih =>
    obtain ⟨names, hnames⟩ := ih (fun h => hroot (List.mem_cons_of_mem c h)) fun h => hup (List.mem_cons_of_mem c h)
    cases c with
    | root => exact absurd List.mem_cons_self hroot
    | up => exact absurd List.mem_cons_self hup
    | here => exact ⟨names, hnames⟩
    | name s => exact ⟨s :: names, by rw [names?, hnames]; rfl⟩

/-- A relative path that does not lead up has a place below any root. -/
theorem exists_relative? (root : String) {dir : String} (h : isAbsolute dir = false) (hup : .up ∉ components dir) :
    ∃ rel, relative? root dir = some rel := by
  obtain ⟨names, hnames⟩ := exists_names? (root_not_mem_components h) hup
  refine ⟨"/".intercalate names, ?_⟩
  rw [relative?, relativeNames?, if_neg (by simp [h]), hnames]
  rfl

theorem nulFree_relative? {root dir rel : String} (hdir : isAbsolute dir = false) (hnul : NulFree dir)
    (h : relative? root dir = some rel) : NulFree rel := by
  obtain ⟨names, hnames, rfl⟩ := Option.map_eq_some_iff.mp h
  rw [relativeNames?, if_neg (by simp [hdir])] at hnames
  apply nulFree_intercalate (by decide)
  intro s hs hmem
  obtain ⟨hpiece, -⟩ := piece_of_mem_components (mem_of_names? hnames s hs)
  have hsplit : s.toList ∈ dir.toList.splitOnP (· == '/') := by rwa [← List.splitOn_eq_splitOnP]
  exact hnul (subset_of_mem_splitOnP hsplit hmem)

theorem up_mem_components_iff : .up ∈ components p ↔ ['.', '.'] ∈ pieces p := by
  have hpiece (piece : List Char) : Component.ofPiece? piece = some .up ↔ piece = ['.', '.'] := by
    unfold Component.ofPiece?
    split
    · rename_i hnone
      rcases hnone with rfl | rfl <;> simp
    · split <;> simp [*]
  have hinner : .up ∈ (pieces p).filterMap Component.ofPiece? ↔ ['.', '.'] ∈ pieces p := by
    simp [List.mem_filterMap, hpiece]
  unfold components
  split
  · simpa using hinner
  · split <;> simpa using hinner

/-- What is found below a root are names, and none of them leads up or stays. -/
theorem names_of_relativeNames? {root dir : String} {names : List String} (h : relativeNames? root dir = some names) :
    ∀ s ∈ names, IsPart s ∧ Component.ofPiece? s.toList = some (.name s) := by
  have hmem : ∀ s ∈ names, .name s ∈ components dir := by
    unfold relativeNames? at h
    split at h
    · obtain ⟨rest, hrest, hnames⟩ := Option.bind_eq_some_iff.mp h
      rw [← append_of_isPrefixOf? hrest]
      exact fun s hs => List.mem_append_right _ (mem_of_names? hnames s hs)
    · exact mem_of_names? h
  exact fun s hs => ⟨isPart_of_mem_components (hmem s hs), (piece_of_mem_components (hmem s hs)).2⟩

theorem isPart_of_relativeNames? {root dir : String} {names : List String} (h : relativeNames? root dir = some names) :
    ∀ s ∈ names, IsPart s := fun s hs => (names_of_relativeNames? h s hs).1

/-! ## The directory of a file -/

/-- The last slash parts a path into the directory, which keeps it, and the rest. -/
theorem directory_eq (p : String) : '/' ∉ p.toList ∧ directory p = "." ∨
    ∃ front last, p.toList = front ++ '/' :: last ∧ '/' ∉ last ∧ directory p = String.ofList (front ++ ['/']) := by
  have hsplit := List.takeWhile_append_dropWhile (p := fun c => decide (c ≠ '/')) (l := p.toList.reverse)
  have hlast := not_mem_takeWhile_ne '/' p.toList.reverse
  have hslash : ∀ c ∈ (p.toList.reverse.dropWhile fun c => decide (c ≠ '/')).head?, c = '/' :=
    fun c hc => eq_of_head?_dropWhile_ne hc
  unfold directory
  generalize (p.toList.reverse.takeWhile fun c => decide (c ≠ '/')) = tail at hsplit hlast
  generalize (p.toList.reverse.dropWhile fun c => decide (c ≠ '/')) = front at hsplit hslash
  have hp : p.toList = front.reverse ++ tail.reverse := by
    rw [← List.reverse_append, hsplit, List.reverse_reverse]
  cases front with
  | nil =>
    refine Or.inl ⟨?_, rfl⟩
    rw [hp]
    simpa using hlast
  | cons c front =>
    obtain rfl : c = '/' := hslash c rfl
    exact Or.inr ⟨front.reverse, tail.reverse, by simpa using hp, by simpa using hlast, by simp⟩

theorem pieces_directory (p : String) : ∃ up last, pieces p = up ++ [last] ∧
    (last = [] → p = "" ∨ p.toList.getLast? = some '/') ∧
    (up = [] ∧ directory p = "." ∨ pieces (directory p) = up ++ [[]]) := by
  rcases directory_eq p with ⟨hslash, hdir⟩ | ⟨front, last, hp, hslash, hdir⟩
  · refine ⟨[], p.toList, List.splitOn_eq_singleton hslash, fun h => Or.inl ?_, Or.inl ⟨rfl, hdir⟩⟩
    simpa using h
  · refine ⟨front.splitOn '/', last, ?_, fun h => Or.inr ?_, Or.inr ?_⟩
    · rw [pieces, hp, List.splitOn_append_cons_self, List.splitOn_eq_singleton hslash]
    · simp [hp, h]
    · rw [pieces, hdir, String.toList_ofList, List.splitOn_append_cons_self]
      rfl

theorem isAbsolute_directory (p : String) : isAbsolute (directory p) = isAbsolute p := by
  unfold isAbsolute
  rcases directory_eq p with ⟨hslash, hdir⟩ | ⟨front, last, hp, -, hdir⟩
  · rw [hdir]
    cases hl : p.toList with
    | nil => rfl
    | cons c cs =>
      have hc : c ≠ '/' := by
        rintro rfl
        exact hslash (by simp [hl])
      simpa using hc
  · rw [hdir, hp]
    cases front <;> simp

/-! ## Spelling -/

/-- The path `rel` below the directory at `base`, where no path stands for the directory itself. -/
def below (base rel : String) : String :=
  if base = "" then rel else if rel = "" then base else base ++ "/" ++ rel

theorem below_assoc (a b c : String) : below (below a b) c = below a (below b c) := by
  unfold below
  by_cases ha : a = ""
  · simp [ha]
  · by_cases hb : b = ""
    · simp [ha, hb]
    · by_cases hc : c = "" <;> simp [ha, hb, hc, String.append_assoc]

theorem below_ne {base rel : String} (hbase : base ≠ "") (hrel : rel ≠ "") : below base rel ≠ base := by
  intro h
  have hlength := congrArg String.length h
  simp only [below, hbase, hrel, if_false, String.length_append] at hlength
  have hslash : "/".length = 1 := rfl
  omega

theorem below_injective (base : String) : Function.Injective (below base) := by
  intro r s h
  by_cases hbase : base = ""
  · simpa [below, hbase] using h
  · by_cases hr : r = "" <;> by_cases hs : s = ""
    · rw [hr, hs]
    · exact absurd (by rw [← h, hr]; simp [below, hbase]) (below_ne hbase hs)
    · exact absurd (by rw [h, hs]; simp [below, hbase]) (below_ne hbase hr)
    · simpa [below, hbase, hr, hs, String.append_assoc] using h

theorem intercalate_eq_empty {l : List String} (h : ∀ s ∈ l, IsPart s) : "/".intercalate l = "" ↔ l = [] := by
  cases l with
  | nil => simp
  | cons s l =>
    have hs := (h s List.mem_cons_self).1
    cases l with
    | nil => simpa using hs
    | cons t l => simp [String.intercalate_cons_cons, hs]

theorem pieces_intercalate {l : List String} (h : ∀ s ∈ l, IsPart s) (hne : l ≠ []) :
    pieces ("/".intercalate l) = l.map String.toList := by
  have hparts : ∀ s ∈ l.map String.toList, '/' ∉ s := List.forall_mem_map.mpr fun s hs => (h s hs).2
  unfold pieces
  rw [String.toList_intercalate]
  exact List.splitOn_intercalate '/' hparts (by simpa using hne)

/-- A path that is spelt by its parts spells no others. -/
theorem intercalate_inj {l m : List String} (hl : ∀ s ∈ l, IsPart s) (hm : ∀ s ∈ m, IsPart s)
    (h : "/".intercalate l = "/".intercalate m) : l = m := by
  by_cases hle : l = []
  · rw [(intercalate_eq_empty hl).mpr hle] at h
    rw [hle, (intercalate_eq_empty hm).mp h.symm]
  · have hme : m ≠ [] := by
      rintro rfl
      exact hle ((intercalate_eq_empty hl).mp h)
    have hmap : l.map String.toList = m.map String.toList := by
      rw [← pieces_intercalate hl hle, h, pieces_intercalate hm hme]
    exact (List.map_inj_right fun _ _ => String.toList_inj.mp).mp hmap

theorem intercalate_append {l m : List String} (hl : ∀ s ∈ l, IsPart s) (hm : ∀ s ∈ m, IsPart s) :
    "/".intercalate (l ++ m) = below ("/".intercalate l) ("/".intercalate m) := by
  unfold below
  by_cases hle : l = []
  · simp [hle]
  · by_cases hme : m = []
    · simp [hme]
    · rw [if_neg (mt (intercalate_eq_empty hl).mp hle), if_neg (mt (intercalate_eq_empty hm).mp hme),
        String.intercalate_append_of_ne_nil hle hme]

theorem intercalate_cons {l : List String} (hname : IsPart name) (hl : ∀ s ∈ l, IsPart s) :
    "/".intercalate (name :: l) = below name ("/".intercalate l) := by
  have happend := intercalate_append (l := [name]) (m := l) (by simpa using hname) hl
  simpa using happend

/-- No slash is the first or the last character of a path that is spelt by its parts. -/
theorem ends_of_intercalate {l : List String} (h : ∀ s ∈ l, IsPart s) :
    ("/".intercalate l).toList.head? ≠ some '/' ∧ ("/".intercalate l).toList.getLast? ≠ some '/' := by
  induction l with
  | nil => simp
  | cons s l ih =>
    obtain ⟨hne, hslash⟩ := h s List.mem_cons_self
    have hrest := fun t ht => h t (List.mem_cons_of_mem s ht)
    have hhead : s.toList.head? ≠ some '/' := fun he => hslash (List.mem_of_mem_head? he)
    cases l with
    | nil =>
      have hlast : s.toList.getLast? ≠ some '/' := fun he => hslash (List.mem_of_getLast? he)
      simpa using ⟨hhead, hlast⟩
    | cons t l =>
      have hmore := mt (intercalate_eq_empty hrest).mp (List.cons_ne_nil t l)
      rw [String.intercalate_cons_cons, String.toList_append, String.toList_append]
      constructor
      · obtain ⟨c, cs, hcs⟩ := List.exists_cons_of_ne_nil (toList_ne_nil hne)
        rw [hcs] at hhead ⊢
        exact hhead
      · obtain ⟨c, hc⟩ := Option.isSome_iff_exists.mp (List.getLast?_isSome.mpr (toList_ne_nil hmore))
        have hlast := (ih hrest).2
        rw [hc] at hlast
        rw [List.getLast?_append, hc]
        exact hlast

/-- Below a root stands what was joined to it, below the place of the root itself. -/
theorem relative?_foldl {root : String} {names : List String} (h : ∀ n ∈ names, IsName n) (hroot : root ≠ "") :
    relative? root (names.foldl join root) = (relative? root root).map (below · ("/".intercalate names)) := by
  unfold relative?
  rw [relativeNames?_foldl h hroot]
  cases hbase : relativeNames? root root with
  | none => rfl
  | some base =>
    have happend := intercalate_append (isPart_of_relativeNames? hbase) fun n hn => (h n hn).isPart
    simp [happend]

/-! ## A path told again -/

theorem isAbsolute_intercalate {l : List String} (h : ∀ s ∈ l, IsPart s) : isAbsolute ("/".intercalate l) = false := by
  have hhead := (ends_of_intercalate h).1
  unfold isAbsolute
  simpa using hhead

theorem filterMap_ofPiece? {l : List String} (h : ∀ s ∈ l, Component.ofPiece? s.toList = some (.name s)) :
    (l.map String.toList).filterMap Component.ofPiece? = l.map .name := by
  rw [List.filterMap_map, ← List.filterMap_eq_map]
  exact List.filterMap_congr h

/-- A path that is spelt by names has these as its components. -/
theorem components_intercalate {l : List String}
    (h : ∀ s ∈ l, IsPart s ∧ Component.ofPiece? s.toList = some (.name s)) :
    components ("/".intercalate l) = l.map .name := by
  cases l with
  | nil => rfl
  | cons name l =>
    have hparts : ∀ s ∈ name :: l, IsPart s := fun s hs => (h s hs).1
    have hpieces := pieces_intercalate hparts (List.cons_ne_nil name l)
    have hinner : ((name :: l).map String.toList).filterMap Component.ofPiece? = (name :: l).map .name :=
      filterMap_ofPiece? fun s hs => (h s hs).2
    have hdot : name.toList ≠ ['.'] := by
      intro he
      have hname := (h name List.mem_cons_self).2
      rw [he] at hname
      cases hname
    unfold components
    rw [hpieces, hinner, if_neg (by simp [isAbsolute_intercalate hparts]), if_neg (by simpa using hdot)]

/-- The path below a root is its own path below the root. -/
theorem relative?_relative? {root dir rel : String} (h : relative? root dir = some rel) : relative? root rel = some rel := by
  obtain ⟨names, hnames, rfl⟩ := Option.map_eq_some_iff.mp h
  have hall := names_of_relativeNames? hnames
  have hagain := names?_append [] names
  rw [List.nil_append] at hagain
  unfold relative? relativeNames?
  rw [if_neg (by simp [isAbsolute_intercalate (isPart_of_relativeNames? hnames)]), components_intercalate hall, hagain]
  rfl

end PackageIndex.Path
