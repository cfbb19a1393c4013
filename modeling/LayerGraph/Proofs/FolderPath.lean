import LayerGraph.RecordStore.Folder
import Mathlib.Data.List.Basic

/-!
# The files of one directory

The paths of two files in a directory lead through the same places and part at the last name. If
there is a way to one of them, then the directory is there, so nothing has to be created for it, and
the way to the other one is open too unless its name or its path is too long.

Main statements:
1. `Disk.exists_directory`: the files of one directory lie at one place, each under its own name.
2. `Disk.createDirectories_parent`: the directory of a file that can be reached is there.
-/

namespace LayerGraph

/-! ## Names of files -/

theorem Text.octets_ofList (cs : List Char) :
    octets (String.ofList cs) = cs.flatMap String.utf8EncodeChar := by
  simp [octets, List.utf8Encode]

theorem Text.octets_ofList_append (front back : List Char) :
    octets (String.ofList (front ++ back)) =
      octets (String.ofList front) ++ octets (String.ofList back) := by
  rw [String.ofList_append, octets_append]

theorem Text.octets_ne_nil {cs : List Char} (h : cs ≠ []) : octets (String.ofList cs) ≠ [] := by
  obtain ⟨c, rest, rfl⟩ := List.exists_cons_of_ne_nil h
  have first : String.utf8EncodeChar c ≠ [] := by
    unfold String.utf8EncodeChar
    dsimp only
    split_ifs <;> simp
  rw [octets_ofList, List.flatMap_cons]
  simp [first]

/-- A name of letters, digits, dashes, underscores and dots that does not end with a dot. -/
structure IsFileName (name : String) : Prop where
  chars : ∀ c ∈ name.toList, isProjectName.isNameChar c = true
  last : ∃ cs c, name.toList = cs ++ [c] ∧ c ≠ '.'

/-- A name that leads down. -/
structure Name.Plain (name : Name) : Prop where
  ne_nil : name ≠ []
  ne_here : name ≠ here
  ne_up : name ≠ up
  no_slash : slash ∉ name
  no_zero : 0 ∉ name

/-- The characters of names are single octets, and neither zero nor a slash is among them. -/
theorem toNat_nameChar {c : Char} (h : isProjectName.isNameChar c = true) :
    45 ≤ c.toNat ∧ c.toNat ≤ 122 ∧ c.toNat ≠ 47 := by
  have between {a b : Char} (h : (decide (a ≤ c) && decide (c ≤ b)) = true) :
      a.toNat ≤ c.toNat ∧ c.toNat ≤ b.toNat := by
    simpa [Char.le_def, UInt32.le_iff_toNat_le] using h
  simp only [isProjectName.isNameChar, Decimal.isDigit, Bool.or_eq_true, decide_eq_true_eq] at h
  obtain ((((h | h) | h) | rfl) | rfl) | rfl := h
  · have : 97 ≤ c.toNat ∧ c.toNat ≤ 122 := between h
    omega
  · have : 65 ≤ c.toNat ∧ c.toNat ≤ 90 := between h
    omega
  · have : 48 ≤ c.toNat ∧ c.toNat ≤ 57 := between h
    omega
  · decide
  · decide
  · decide

theorem utf8EncodeChar_nameChar {c : Char} (h : isProjectName.isNameChar c = true) :
    String.utf8EncodeChar c = [UInt8.ofNat c.toNat] := by
  have small : c.val.toNat ≤ 127 := Nat.le_trans (toNat_nameChar h).2.1 (by decide)
  unfold String.utf8EncodeChar
  rw [if_pos small]
  rfl

theorem IsFileName.octets_eq {name : String} (h : IsFileName name) :
    Text.octets name = name.toList.map fun c => UInt8.ofNat c.toNat := by
  rw [← String.ofList_toList (s := name), Text.octets_ofList, String.toList_ofList,
    List.flatMap_congr fun c hc => utf8EncodeChar_nameChar (h.chars c hc), ← List.map_eq_flatMap]

theorem IsFileName.plain {name : String} (h : IsFileName name) :
    Name.Plain (Text.octets name) := by
  have mem {octet : UInt8} (hmem : octet ∈ Text.octets name) :
      45 ≤ octet.toNat ∧ octet.toNat ≠ 47 := by
    rw [h.octets_eq] at hmem
    obtain ⟨c, hc, rfl⟩ := List.mem_map.1 hmem
    obtain ⟨low, high, noSlash⟩ := toNat_nameChar (h.chars c hc)
    rw [UInt8.toNat_ofNat']
    omega
  obtain ⟨cs, c, hcs, dot⟩ := h.last
  obtain ⟨low, high, -⟩ := toNat_nameChar (h.chars c (by simp [hcs]))
  have last : Text.octets name = (cs.map fun c => UInt8.ofNat c.toNat) ++ [UInt8.ofNat c.toNat] := by
    rw [h.octets_eq, hcs, List.map_append, List.map_singleton]
  have last_ne : UInt8.ofNat c.toNat ≠ 0x2E := by
    intro e
    have value := congrArg UInt8.toNat e
    rw [UInt8.toNat_ofNat'] at value
    refine dot (Char.toNat_inj.1 ?_)
    show c.toNat = 46
    have : (0x2E : UInt8).toNat = 46 := rfl
    omega
  have ne_dots (dots : List UInt8) : Text.octets name ≠ dots ++ [0x2E] := by
    rw [last]
    intro e
    exact last_ne (List.cons.inj (List.append_inj' e rfl).2).1
  constructor
  · rw [last]
    simp
  · exact ne_dots []
  · exact ne_dots [0x2E]
  · exact fun hmem => (mem hmem).2 rfl
  · exact fun hmem => absurd (mem hmem).1 (by decide)

namespace Place

variable {p : Place} {name : Name}

theorem step_plain (h : name.Plain) : p.step name = p ++ [name] := by
  simp [step, h.ne_nil, h.ne_here, h.ne_up]

theorem not_given_plain (h : name.Plain) : (p ++ [name]).isGiven = false := by
  have root_ne : p ++ [name] ≠ root := by
    intro e
    have last := congrArg List.getLast? e
    simp only [root, List.getLast?_append, List.getLast?_singleton, Option.some_or,
      Option.some.injEq] at last
    exact h.no_slash (last ▸ List.mem_singleton_self _)
  simp [isGiven, root_ne, h.ne_up]

end Place

/-! ## Paths of files -/

namespace Path

theorem names_of_no_slash : ∀ {name : Name}, Name.slash ∉ name → names name = [name]
  | [], _ => rfl
  | octet :: rest, h => by
    have rest_eq : names rest = [rest] :=
      names_of_no_slash fun hmem => h (List.mem_cons_of_mem _ hmem)
    have head : octet ≠ Name.slash := fun e => h (e ▸ List.mem_cons_self)
    rw [names, if_neg head, rest_eq]

theorem octets_slash (front back : List Char) :
    Text.octets (String.ofList (front ++ '/' :: back)) =
      Text.octets (String.ofList front) ++ Name.slash :: Text.octets (String.ofList back) := by
  rw [Text.octets_ofList_append, ← List.singleton_append, Text.octets_ofList_append]
  rfl

theorem dropEmpty_suffix (cs : List Char) : dropEmpty cs <:+ cs := by
  fun_induction dropEmpty cs with
  | case1 rest ih => exact ih.trans (List.suffix_cons _ _)
  | case2 rest ih => exact ih.trans (List.suffix_cons _ _)
  | case3 => exact List.suffix_refl _

theorem dropEmpty_dropEmpty (cs : List Char) : dropEmpty (dropEmpty cs) = dropEmpty cs := by
  fun_induction dropEmpty cs with
  | case1 _ ih => exact ih
  | case2 _ ih => exact ih
  | case3 cs noSlash noDot =>
    unfold dropEmpty
    split
    · exact absurd rfl (noSlash _)
    · exact absurd rfl (noDot _)
    · rfl

theorem dropEmpty_of_ne {c : Char} (slash : c ≠ '/') (dot : c ≠ '.') (cs : List Char) :
    dropEmpty (c :: cs) = c :: cs := by
  unfold dropEmpty
  split
  · rename_i first
    exact absurd (List.cons.inj first).1 slash
  · rename_i first
    exact absurd (List.cons.inj first).1 dot
  · rfl

/-- The files of a directory that is not written as the empty text are written behind a slash. -/
theorem exists_base (directory : String) : directory = "" ∨ ∃ base : List Char,
    ∀ name, join directory name = String.ofList (base ++ '/' :: name.toList) := by
  by_cases empty : directory = ""
  · exact .inl empty
  · refine .inr ?_
    by_cases closed : directory.toList.getLast? = some '/'
    · obtain ⟨base, hbase⟩ := List.getLast?_eq_some_iff.1 closed
      refine ⟨base, fun name => String.toList_inj.1 ?_⟩
      simp [join, hbase]
    · refine ⟨directory.toList, fun name => String.toList_inj.1 ?_⟩
      simp [join, closed, empty]

theorem start_append {front : List UInt8} (h : front ≠ []) (back : List UInt8) :
    start (front ++ back) = start front := by
  obtain ⟨octet, rest, rfl⟩ := List.exists_cons_of_ne_nil h
  rfl

variable {base : List Char} {name : String}

/-- A name behind a slash is the last one of the path. -/
theorem names_base (h : IsFileName name) :
    names (Text.octets (String.ofList (base ++ '/' :: name.toList))) =
      names (Text.octets (String.ofList base)) ++ [Text.octets name] := by
  rw [octets_slash, names_append, String.ofList_toList, names_of_no_slash h.plain.no_slash]

theorem ne_slash_of_mem (h : IsFileName name) {c : Char} (hc : c ∈ name.toList) : c ≠ '/' := by
  rintro rfl
  exact absurd (h.chars '/' hc) (by decide)

/-- Nothing is dropped from the end of a path that ends with a name. -/
theorem dropEmpty_name (h : IsFileName name) (above : List Char) :
    dropEmpty (name.toList.reverse ++ above) = name.toList.reverse ++ above := by
  obtain ⟨cs, c, hcs, dot⟩ := h.last
  have slash := ne_slash_of_mem h (c := c) (by simp [hcs])
  rw [hcs, List.reverse_append, List.reverse_singleton, List.singleton_append, List.cons_append]
  exact dropEmpty_of_ne slash dot _

theorem dropWhile_name (h : IsFileName name) (above : List Char) :
    (name.toList.reverse ++ above).dropWhile (· ≠ '/') = above.dropWhile (· ≠ '/') :=
  List.dropWhile_append_of_pos fun _ hc => by simpa using ne_slash_of_mem h (List.mem_reverse.1 hc)

theorem parent_of_name (h : IsFileName name) : parent name = "" := by
  have kept := dropEmpty_name h []
  have cut := dropWhile_name h []
  rw [List.append_nil] at kept cut
  simp only [parent, kept, cut]
  rfl

/-- The path that is written for the directory of a file. -/
theorem parent_base (h : IsFileName name) :
    parent (String.ofList (base ++ '/' :: name.toList)) =
      String.ofList (if dropEmpty base.reverse = [] then ['/']
        else (dropEmpty base.reverse).reverse) := by
  have whole : (String.ofList (base ++ '/' :: name.toList)).toList.reverse =
      name.toList.reverse ++ '/' :: base.reverse := by simp
  have slash : dropEmpty ('/' :: base.reverse) = dropEmpty base.reverse := by rw [dropEmpty]
  simp only [parent, whole, dropEmpty_name h, dropWhile_name h]
  rw [List.dropWhile_cons_of_neg (by simp), slash]
  simp

theorem chain_of_dropEmpty {cs : List Char} (h : dropEmpty cs ≠ []) :
    chain (String.ofList (dropEmpty cs).reverse) =
      String.ofList (dropEmpty cs).reverse :: chain.go (reversedParent (dropEmpty cs)) := by
  rw [chain, String.toList_ofList, List.reverse_reverse, chain.go, dif_neg]
  rw [dropEmpty_dropEmpty]
  exact h

theorem withoutEndSlashes_of_dropEmpty (cs : List Char) :
    withoutEndSlashes (String.ofList (dropEmpty cs).reverse) =
      String.ofList (dropEmpty cs).reverse := by
  have head := head?_dropEmpty_ne cs
  rw [withoutEndSlashes, String.toList_ofList, List.reverse_reverse]
  cases hcs : dropEmpty cs with
  | nil => rfl
  | cons c rest =>
    rw [hcs] at head
    rw [List.dropWhile_cons_of_neg]
    simpa using head

end Path

/-! ## Ways to files -/

namespace Disk

variable {d : Disk} {p q s : Place}

theorem walk_append (d : Disk) (p : Place) (front back : List Name) :
    d.walk p (front ++ back) = d.walk p front >>= fun q => d.walk q back := by
  induction front generalizing p with
  | nil => rfl
  | cons name front ih =>
    rw [List.cons_append, walk, walk]
    split
    · rfl
    · split
      · rfl
      · exact ih _
    · rfl

/-- One name is looked up in a directory. -/
theorem walk_singleton {name : Name} (h : d.walk p [name] = .ok q) :
    d.hasDirectory p = true ∧ name.length ≤ longestName ∧ q = p.step name := by
  unfold walk at h
  split at h
  · cases h
  · rename_i here
    split at h
    · cases h
    · rename_i short
      cases h
      exact ⟨by simp [hasDirectory, here], Nat.le_of_not_lt short, rfl⟩
  · cases h

theorem entryAt?_of_hasDirectory (h : d.hasDirectory p = true) :
    d.entryAt? p = some .directory := by
  unfold hasDirectory at h
  split at h
  · assumption
  · cases h

theorem walk_of_hasDirectory (h : d.hasDirectory p = true) (name : Name) :
    d.walk p [name] = if longestName < name.length then .error .nameTooLong
      else .ok (p.step name) := by
  rw [walk, entryAt?_of_hasDirectory h]
  rfl

theorem walk_concat {front : List Name} {name : Name} :
    d.walk s (front ++ [name]) = .ok q ↔
      ∃ p, d.walk s front = .ok p ∧ d.hasDirectory p = true ∧ name.length ≤ longestName ∧
        q = p.step name := by
  rw [walk_append]
  cases hfront : d.walk s front with
  | error fault =>
    constructor
    · intro h
      cases h
    · rintro ⟨p, hp, -⟩
      cases hp
  | ok p =>
    constructor
    · exact fun h => ⟨p, rfl, walk_singleton h⟩
    · rintro ⟨_, hp, directory, short, rfl⟩
      cases hp
      exact (walk_of_hasDirectory directory name).trans (if_neg (Nat.not_lt.2 short))

/-- A name that stays where it is can be left out. -/
theorem walk_concat_here {front : List Name} {name : Name} (h : name = [] ∨ name = Name.here) :
    d.walk s (front ++ [name]) = .ok p ↔ d.walk s front = .ok p ∧ d.hasDirectory p = true := by
  have short : name.length ≤ longestName := by
    rcases h with rfl | rfl <;> decide
  have stays (q : Place) : q.step name = q := by
    rcases h with rfl | rfl <;> simp [Place.step]
  rw [walk_concat]
  constructor
  · rintro ⟨q, hq, directory, -, rfl⟩
    rw [stays]
    exact ⟨hq, directory⟩
  · exact fun ⟨hp, directory⟩ => ⟨p, hp, directory, short, (stays p).symm⟩

/-- What stands for nothing at the end of a path can be left out. -/
theorem walk_dropEmpty (cs : List Char)
    (h : d.walk s (Path.names (Text.octets (String.ofList cs.reverse))) = .ok p) :
    d.walk s (Path.names (Text.octets (String.ofList (Path.dropEmpty cs).reverse))) = .ok p := by
  have ends (rest : List Char) (name : List Char) : Path.names (Text.octets
      (String.ofList (rest.reverse ++ '/' :: name))) = Path.names (Text.octets
      (String.ofList rest.reverse)) ++ Path.names (Text.octets (String.ofList name)) := by
    rw [Path.octets_slash, Path.names_append]
  have empty : Path.names (Text.octets (String.ofList [])) = [[]] := rfl
  have dot : Path.names (Text.octets (String.ofList ['.'])) = [Name.here] := by decide
  fun_induction Path.dropEmpty cs with
  | case1 rest ih =>
    rw [List.reverse_cons, ends, empty, walk_concat_here (.inl rfl)] at h
    exact ih h.1
  | case2 rest ih =>
    rw [List.reverse_cons, List.reverse_cons, List.append_assoc, List.singleton_append, ends, dot,
      walk_concat_here (.inr rfl)] at h
    refine ih ?_
    rw [List.reverse_cons, ends, empty, walk_concat_here (.inl rfl)]
    exact h
  | case3 => exact h

theorem locate_eq_ok {path : String} : d.locate path = .ok q ↔
    0 ∉ Text.octets path ∧ Text.octets path ≠ [] ∧ (Text.octets path).length ≤ longestPath ∧
      d.walk (Path.start (Text.octets path)) (Path.names (Text.octets path)) = .ok q := by
  unfold locate locateOctets
  split
  · rename_i zero
    simp_all
  · split
    · simp_all
    · split
      · rename_i long
        simp [Nat.not_le.2 long]
      · simp_all

/-- The paths of the files of a directory part at their last names. -/
theorem exists_front (directory : String) : ∃ s front, ∀ name, IsFileName name →
    Path.start (Text.octets (Path.join directory name)) = s ∧
      Path.names (Text.octets (Path.join directory name)) = front ++ [Text.octets name] := by
  rcases Path.exists_base directory with rfl | ⟨base, hbase⟩
  · refine ⟨[], [], fun name hname => ?_⟩
    have plain := hname.plain
    have join_eq : Path.join "" name = name := by simp [Path.join]
    rw [join_eq]
    refine ⟨if_neg fun head => plain.no_slash ?_, Path.names_of_no_slash plain.no_slash⟩
    exact List.mem_of_mem_head? head
  · refine ⟨Path.start (Text.octets (String.ofList base) ++ [Name.slash]),
      Path.names (Text.octets (String.ofList base)), fun name hname => ?_⟩
    rw [hbase]
    refine ⟨?_, Path.names_base hname⟩
    rw [Path.octets_slash, ← List.singleton_append, ← List.append_assoc]
    exact Path.start_append (by simp) _

/-- Files of one directory lie at one place, each under its own name. -/
theorem exists_directory {directory name : String} (hname : IsFileName name)
    (h : d.locate (Path.join directory name) = .ok q) :
    ∃ p, q = p ++ [Text.octets name] ∧ ∀ other, IsFileName other → ∀ r,
      d.locate (Path.join directory other) = .ok r → r = p ++ [Text.octets other] := by
  obtain ⟨s, front, paths⟩ := exists_front directory
  have way {other : String} (hother : IsFileName other) {r : Place}
      (hr : d.locate (Path.join directory other) = .ok r) :
      ∃ p, d.walk s front = .ok p ∧ r = p ++ [Text.octets other] := by
    obtain ⟨hstart, hnames⟩ := paths other hother
    obtain ⟨-, -, -, walked⟩ := locate_eq_ok.1 hr
    rw [hstart, hnames, walk_concat] at walked
    obtain ⟨p, hp, -, -, hstep⟩ := walked
    exact ⟨p, hp, hstep.trans (Place.step_plain hother.plain)⟩
  obtain ⟨p, hp, hq⟩ := way hname h
  refine ⟨p, hq, fun other hother r hr => ?_⟩
  obtain ⟨p', hp', hr⟩ := way hother hr
  rw [hp] at hp'
  cases hp'
  exact hr

/-- A directory is not created again. -/
theorem ensureDirectory_of_locate {path : String} (ends : Path.withoutEndSlashes path = path)
    (h : d.locate path = .ok p) (directory : d.hasDirectory p = true) :
    d.ensureDirectory path = (none, d) := by
  have here := entryAt?_of_hasDirectory directory
  have exists_already : d.createDirectory path = .error .alreadyExists := by
    rw [createDirectory, ends, h]
    exact if_pos (by rw [here]; rfl)
  have found : d.isDirectory path = true := by
    rw [isDirectory, find, findOctets]
    have located : d.locateOctets (Text.octets path) = .ok p := h
    rw [located]
    simp [bind, Except.bind, here]
  rw [ensureDirectory, exists_already]
  exact congrArg (·, d) (if_pos found)

/-- The directory of a file that can be reached is there, so there is nothing to create. -/
theorem createDirectories_parent {directory name : String} (hname : IsFileName name)
    (h : d.locate (Path.join directory name) = .ok q) :
    d.createDirectories (Path.parent (Path.join directory name)) = (none, d) := by
  rcases Path.exists_base directory with rfl | ⟨base, hbase⟩
  · have join_eq : Path.join "" name = name := by simp [Path.join]
    rw [join_eq, Path.parent_of_name hname, createDirectories, Path.chain, Path.chain.go]
    rfl
  · rw [hbase] at h ⊢
    rw [Path.parent_base hname]
    split
    · rw [createDirectories, Path.chain, Path.chain.go]
      rfl
    · rename_i written
      -- what is written for the directory is the front of the path
      obtain ⟨dropped, hdropped⟩ := Path.dropEmpty_suffix base.reverse
      have base_eq : base = (Path.dropEmpty base.reverse).reverse ++ dropped.reverse := by
        rw [← List.reverse_append, hdropped, List.reverse_reverse]
      obtain ⟨rest, hrest⟩ : ∃ rest, Text.octets (String.ofList base) =
          Text.octets (String.ofList (Path.dropEmpty base.reverse).reverse) ++ rest :=
        ⟨_, by rw [← Text.octets_ofList_append, ← base_eq]⟩
      have nonempty : Text.octets (String.ofList (Path.dropEmpty base.reverse).reverse) ≠ [] :=
        Text.octets_ne_nil (by simpa using written)
      obtain ⟨noZero, -, short, walked⟩ := locate_eq_ok.1 h
      rw [Path.octets_slash, hrest, List.append_assoc] at noZero short
      rw [Path.names_base hname, Path.octets_slash, hrest, List.append_assoc,
        Path.start_append nonempty, ← hrest, walk_concat] at walked
      obtain ⟨p, hp, directory, -⟩ := walked
      have way := walk_dropEmpty base.reverse (p := p) (by rw [List.reverse_reverse]; exact hp)
      have located : d.locate (String.ofList (Path.dropEmpty base.reverse).reverse) = .ok p := by
        refine locate_eq_ok.2 ⟨fun zero => noZero (List.mem_append_left _ zero), nonempty, ?_, way⟩
        rw [List.length_append] at short
        omega
      rw [createDirectories, Path.chain_of_dropEmpty written, ensureChain,
        ensureDirectory_of_locate (Path.withoutEndSlashes_of_dropEmpty _) located directory]

end Disk

end LayerGraph
