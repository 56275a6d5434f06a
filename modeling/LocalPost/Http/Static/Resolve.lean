import LocalPost.Core.FileTree
import LocalPost.Core.Utf8
import LocalPost.Http.Wsgi.Environ

/-!
# The file that a path stands for

`resolve` is `_resolve`. What it returns lies below the root directory and is settled, so what is
read there is an entry of that directory (`resolve_inside`). And every file below the root has a
path that leads to it: its names, with slashes between them, in any percent coding
(`resolve_names`).
-/

set_option autoImplicit false

namespace LocalPost.Http.Static

open LocalPost.Core LocalPost.Http.Wsgi

/-- What the handler lets pass: a link that leads to itself, a file that it may not open. -/
inductive Failure where
  | symlinkLoop
  | permissionDenied
  deriving DecidableEq, Repr

/-- `decoded.lstrip("/")`. -/
def lstripSlash (b : Bytes) : Bytes := b.dropWhile (· = 47)

/-- The names of `candidate / name`: an absolute name takes the place of the path. -/
def joinName (p : Path) (name : Bytes) : List FileName :=
  if isAbsolute name then splitPath name else p ++ splitPath name

section

variable {α : Type} (tree : FileTree α) (root : Path)

/-- `path.resolve()`. -/
def realpath (names : List FileName) : Except Failure Path :=
  match tree.realpath names with
  | some p => .ok p
  | none => .error .symlinkLoop

/-- The path, if it is relative to the root. -/
def inside (p : Path) : Option Path := if root <+: p then some p else none

/-- What is left of `_resolve` for a path under the root: of a directory the index is served. -/
def withIndex (index : Option Bytes) (candidate : Path) : Except Failure (Option Path) :=
  if (tree.stat candidate).any Node.isDirectory then
    match index with
    | none => .ok none
    | some name => (realpath tree (joinName candidate name)).map (inside root)
  else .ok (some candidate)

/-- `_resolve`. -/
def resolve (rel : Bytes) (index : Option Bytes) : Except Failure (Option Path) :=
  let decoded := unquote rel
  if Utf8.decode decoded = none then .ok none
  else if 0 ∈ decoded then .ok none
  -- Two dots are refused before the path is resolved.
  else if (splitPath decoded).contains dotdot then .ok none
  else
    match realpath tree (root ++ splitPath (lstripSlash decoded)) with
    | .error e => .error e
    | .ok candidate =>
      match inside root candidate with
      | none => .ok none
      | some candidate => withIndex tree root index candidate

end

section

variable {α : Type} {tree : FileTree α} {root : Path}

theorem realpath_ok {names : List FileName} {p : Path} (h : realpath tree names = .ok p) :
    tree.realpath names = some p := by
  rw [realpath] at h
  split at h
  · rename_i p' hp
    cases h
    exact hp
  · cases h

theorem inside_some {p q : Path} (h : inside root p = some q) : q = p ∧ root <+: p := by
  rw [inside] at h
  split at h
  · rename_i hroot
    exact ⟨(Option.some.inj h).symm, hroot⟩
  · cases h

/-- An index that is found inside the root is settled there. -/
theorem withIndex_inside {index : Option Bytes} {candidate p : Path} (hroot : root <+: candidate)
    (hsettled : tree.Settled candidate) (h : withIndex tree root index candidate = .ok (some p)) :
    root <+: p ∧ tree.Settled p := by
  rw [withIndex.eq_def] at h
  split at h
  · cases index with
    | none => cases h
    | some name =>
      dsimp only at h
      cases hreal : realpath tree (joinName candidate name) with
      | error e =>
        rw [hreal] at h
        cases h
      | ok q =>
        rw [hreal] at h
        obtain ⟨rfl, hq⟩ := inside_some (Except.ok.inj h)
        exact ⟨hq, FileTree.realpath_settled (realpath_ok hreal)⟩
  · cases h
    exact ⟨hroot, hsettled⟩

/-- What `_resolve` returns lies below the root, and no link is on the way to it. -/
theorem resolve_inside {rel : Bytes} {index : Option Bytes} {p : Path}
    (h : resolve tree root rel index = .ok (some p)) : root <+: p ∧ tree.Settled p := by
  rw [resolve] at h
  split at h
  · cases h
  · split at h
    · cases h
    · split at h
      · cases h
      -- the candidate is settled, and checked against the root before the index is looked for
      · split at h
        · cases h
        · rename_i candidate hreal
          split at h
          · cases h
          · rename_i q hinside
            obtain ⟨rfl, hroot⟩ := inside_some hinside
            exact withIndex_inside hroot (FileTree.realpath_settled (realpath_ok hreal)) h

/-! ## Every file has a path -/

/-- The names with slashes between them. -/
def joinNames (names : List FileName) : Bytes := [47].intercalate names

theorem splitPath_joinNames (names : List FileName) (hnames : ∀ name ∈ names, IsName name)
    (hne : names ≠ []) : splitPath (joinNames names) = names :=
  List.splitOn_intercalate 47 (fun name hname => (hnames name hname).2.1) hne

theorem splitPath_cons_slash (b : Bytes) : splitPath (47 :: b) = [] :: splitPath b := by
  rw [splitPath, splitPath, List.splitOn_cons_eq_if_modifyHead, if_pos (beq_self_eq_true 47)]

/-- Slashes in front are empty names. -/
theorem mem_splitPath_slashes {n : Nat} {b : Bytes} {name : FileName} (hname : name ≠ [])
    (h : name ∈ splitPath (List.replicate n 47 ++ b)) : name ∈ splitPath b := by
  induction n with
  | zero => exact h
  | succ n ih =>
    rw [List.replicate_succ, List.cons_append, splitPath_cons_slash] at h
    rcases List.mem_cons.1 h with heq | h
    · exact absurd heq hname
    · exact ih h

/-- A joined path has slashes and the bytes of its names. -/
theorem mem_joinNames {names : List FileName} {x : UInt8} (h : x ∈ joinNames names) :
    x = 47 ∨ ∃ name ∈ names, x ∈ name := by
  induction names with
  | nil => cases h
  | cons name names ih =>
    cases names with
    | nil =>
      rw [joinNames, List.intercalate_singleton] at h
      exact .inr ⟨name, List.mem_cons_self, h⟩
    | cons name' names =>
      rw [joinNames, List.intercalate_cons_cons, List.mem_append, List.mem_append] at h
      rcases h with (h | h) | h
      · exact .inr ⟨name, List.mem_cons_self, h⟩
      · exact .inl (List.mem_singleton.1 h)
      · refine (ih h).imp_right fun ⟨name'', hmem, hx⟩ => ?_
        exact ⟨name'', List.mem_cons_of_mem _ hmem, hx⟩

/-- Names in UTF-8 make a path in UTF-8. -/
theorem decode_joinNames {names : List FileName} (hutf8 : ∀ name ∈ names, Utf8.decode name ≠ none)
    (n : Nat) : Utf8.decode (List.replicate n 47 ++ joinNames names) ≠ none := by
  have hslash : Utf8.encode [.scalar '/'] = some [47] := rfl
  -- Decoding follows encoding, so a text for each name is enough.
  have hjoin : ∃ s, Utf8.encode s = some (joinNames names) := by
    induction names with
    | nil => exact ⟨[], rfl⟩
    | cons name names ih =>
      obtain ⟨s, hs⟩ := Option.ne_none_iff_exists'.1 (hutf8 name List.mem_cons_self)
      obtain ⟨s', hs'⟩ := ih fun name' hname' => hutf8 name' (List.mem_cons_of_mem _ hname')
      cases names with
      | nil =>
        exact ⟨s, (Utf8.encode_of_decode hs).trans (by rw [joinNames, List.intercalate_singleton])⟩
      | cons name' names =>
        refine ⟨s ++ ([.scalar '/'] ++ s'), ?_⟩
        have hjoin : joinNames (name :: name' :: names) = name ++
            ([47] ++ joinNames (name' :: names)) := by
          rw [joinNames, List.intercalate_cons_cons, List.append_assoc, joinNames]
        rw [hjoin]
        exact Utf8.encode_append (Utf8.encode_of_decode hs) (Utf8.encode_append hslash hs')
  -- the slashes in front are text, too
  have hall : ∃ s, Utf8.encode s = some (List.replicate n 47 ++ joinNames names) := by
    induction n with
    | zero => exact hjoin
    | succ n ih =>
      obtain ⟨s, hs⟩ := ih
      have hcons : List.replicate (n + 1) 47 ++ joinNames names = [47] ++
        (List.replicate n 47 ++ joinNames names) :=
        rfl
      rw [hcons]
      exact ⟨[.scalar '/'] ++ s, Utf8.encode_append hslash hs⟩
  obtain ⟨s, hs⟩ := hall
  rw [Utf8.decode_of_encode hs]
  exact Option.some_ne_none s

/-- The first name does not begin with a slash. -/
theorem lstripSlash_joinNames {names : List FileName} (hnames : ∀ name ∈ names, IsName name)
    (n : Nat) : lstripSlash (List.replicate n 47 ++ joinNames names) = joinNames names := by
  induction n with
  | succ n ih => exact ih
  | zero =>
    cases names with
    | nil => rfl
    | cons name names =>
      obtain ⟨⟨hne, -⟩, hslash, -⟩ := hnames name List.mem_cons_self
      obtain ⟨x, name', rfl⟩ := List.exists_cons_of_ne_nil hne
      have hx : x ≠ 47 := fun heq => hslash (heq ▸ List.mem_cons_self)
      have hjoin : ∃ rest, joinNames ((x :: name') :: names) = x :: rest := by
        cases names with
        | nil => exact ⟨name', List.intercalate_singleton⟩
        | cons name'' names => exact ⟨_, List.intercalate_cons_cons⟩
      obtain ⟨rest, hrest⟩ := hjoin
      rw [List.replicate_zero, List.nil_append, lstripSlash, hrest,
        List.dropWhile_cons_of_neg (by simp [hx])]

/-- The path of an entry that is not a link resolves to the entry. -/
theorem resolve_candidate {names : List FileName} {x : Node α} {rel : Bytes} {n : Nat}
    (index : Option Bytes) (hnode : tree.node (root ++ names) = some x) (hx : x.isLink = false)
    (hutf8 : ∀ name ∈ names, Utf8.decode name ≠ none)
    (hrel : unquote rel = List.replicate n 47 ++ joinNames names) :
    resolve tree root rel index = withIndex tree root index (root ++ names) := by
  have hnames : ∀ name ∈ names, IsName name := fun name hname =>
    FileTree.isName_of_node hnode name (List.mem_append_right _ hname)
  have hsettled : tree.Settled (root ++ names) := FileTree.settled_of_node hnode hx
  -- a name has no NUL byte, is no `..` and is not empty
  have hzero : 0 ∉ List.replicate n 47 ++ joinNames names := by
    intro h
    rcases List.mem_append.1 h with h | h
    · cases List.eq_of_mem_replicate h
    · rcases mem_joinNames h with h | ⟨name, hname, h⟩
      · cases h
      · exact (hnames name hname).2.2 h
  have hdots : ¬ (splitPath (List.replicate n 47 ++ joinNames names)).contains dotdot = true := by
    intro h
    have hmem := mem_splitPath_slashes (List.cons_ne_nil _ _) (List.contains_iff_mem.1 h)
    by_cases hne : names = []
    · rw [hne] at hmem
      exact absurd (List.mem_singleton.1 hmem) (List.cons_ne_nil _ _)
    · rw [splitPath_joinNames names hnames hne] at hmem
      exact (hnames _ hmem).1.2.2 rfl
  -- the path is that of the node, and has no link on its way
  have hreal : realpath tree (root ++ splitPath (joinNames names)) = .ok (root ++ names) := by
    have hroot := hsettled.of_le (List.prefix_append root names)
    by_cases hne : names = []
    · rw [hne, List.append_nil]
      change realpath tree (root ++ [[]]) = .ok root
      rw [realpath, FileTree.realpath_append hroot]
      rfl
    · rw [splitPath_joinNames names hnames hne, realpath, FileTree.realpath_of_settled hsettled]
  -- it is below the root, so the guard lets it through
  have hinside : inside root (root ++ names) = some (root ++ names) :=
    if_pos (List.prefix_append _ _)
  rw [resolve, hrel, if_neg (decode_joinNames hutf8 n), if_neg hzero, if_neg hdots,
    lstripSlash_joinNames hnames, hreal]
  change (match inside root (root ++ names) with
    | none => Except.ok none
    | some candidate => withIndex tree root index candidate) = _
  rw [hinside]

/-- The path of a file resolves to the file. -/
theorem resolve_names {names : List FileName} {a : α} {rel : Bytes} {n : Nat} (index : Option Bytes)
    (hnode : tree.node (root ++ names) = some (.regular a))
    (hutf8 : ∀ name ∈ names, Utf8.decode name ≠ none)
    (hrel : unquote rel = List.replicate n 47 ++ joinNames names) :
    resolve tree root rel index = .ok (some (root ++ names)) := by
  rw [resolve_candidate index hnode rfl hutf8 hrel, withIndex.eq_def,
    FileTree.stat_of_settled (FileTree.settled_of_node hnode rfl), hnode]
  rfl

/-- The path of a directory resolves to its index. -/
theorem resolve_index {names : List FileName} {a : α} {name : FileName} {rel : Bytes} {n : Nat}
    (hindex : tree.node (root ++ names ++ [name]) = some (.regular a))
    (hutf8 : ∀ name ∈ names, Utf8.decode name ≠ none)
    (hrel : unquote rel = List.replicate n 47 ++ joinNames names) :
    resolve tree root rel (some name) = .ok (some (root ++ names ++ [name])) := by
  have hnode : tree.node (root ++ names) = some .directory := FileTree.node_parent hindex
  have hname : IsName name :=
    FileTree.isName_of_node hindex name (List.mem_append_right _ List.mem_cons_self)
  have hsettled := FileTree.settled_of_node hnode rfl
  -- the name of the index file is one component
  have hjoin : joinName (root ++ names) name = root ++ names ++ [name] := by
    have hsplit : splitPath name = [name] := by
      have hone := splitPath_joinNames [name] (fun name' h => by
        rw [List.mem_singleton.1 h]
        exact hname) (List.cons_ne_nil _ _)
      rwa [joinNames, List.intercalate_singleton] at hone
    have habsolute : isAbsolute name = false := by
      rw [isAbsolute, decide_eq_false_iff_not]
      exact fun h => hname.2.1 (List.mem_of_head? h)
    rw [joinName, habsolute, hsplit]
    rfl
  have hreal : realpath tree (root ++ names ++ [name]) = .ok (root ++ names ++ [name]) := by
    rw [realpath, FileTree.realpath_of_settled (FileTree.settled_of_node hindex rfl)]
  have hinside : inside root (root ++ names ++ [name]) = some (root ++ names ++ [name]) :=
    if_pos ((List.prefix_append root names).trans (List.prefix_append _ _))
  rw [resolve_candidate (some name) hnode rfl hutf8 hrel, withIndex.eq_def,
    FileTree.stat_of_settled hsettled, hnode]
  change (realpath tree (joinName (root ++ names) name)).map (inside root) = _
  rw [hjoin, hreal]
  exact congrArg Except.ok hinside

end

end LocalPost.Http.Static
