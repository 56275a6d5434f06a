import Mathlib.Data.List.Induction
import LocalPost.Core.Dict

/-!
# Trees of files with symbolic links

A tree is the list of its entries below the root directory, each under the names that lead to it.
`realpath` goes through the names of a path as `os.path.realpath` does: it drops empty names and
dots, goes up for two dots, and puts in the place of a link the path that the link stands for; names
that lead nowhere stay. A path that it returns is settled: no name on the way is a link, so what
stands there is where the path says (`stat_of_settled`).
-/

set_option autoImplicit false

namespace LocalPost.Core

universe u

/-- A name of a directory entry. -/
abbrev FileName := List UInt8

/-- The names from the root directory to an entry. -/
abbrev Path := List FileName

/-- `"."`. -/
def dot : FileName := [46]

/-- `".."`. -/
def dotdot : FileName := [46, 46]

/-- What a path may lead to. -/
inductive Node (α : Type u) where
  | directory
  | regular (a : α)
  | link (target : List UInt8)
  | special
  deriving DecidableEq, Repr

/-- The entry is a directory. -/
def Node.isDirectory {α : Type u} : Node α → Bool
  | .directory => true
  | _ => false

/-- The entry is a link. -/
def Node.isLink {α : Type u} : Node α → Bool
  | .link _ => true
  | _ => false

/-- The name leads to an entry of the directory itself. -/
def Plain (name : FileName) : Prop := name ≠ [] ∧ name ≠ dot ∧ name ≠ dotdot

instance (name : FileName) : Decidable (Plain name) := inferInstanceAs (Decidable (_ ∧ _ ∧ _))

/-- A name that an entry can have. -/
def IsName (name : FileName) : Prop := Plain name ∧ 47 ∉ name ∧ 0 ∉ name

instance (name : FileName) : Decidable (IsName name) := inferInstanceAs (Decidable (_ ∧ _ ∧ _))

/-- The entries below the root directory, each in a directory that is there. -/
structure FileTree (α : Type u) where
  entries : Dict Path (Node α)
  nodup : (Dict.keys entries).Nodup
  named : ∀ e ∈ entries, e.1 ≠ [] ∧ ∀ name ∈ e.1, IsName name
  parents : ∀ e ∈ entries, e.1.dropLast ≠ [] → Dict.get? e.1.dropLast entries = some .directory

/-- The names between the slashes. -/
def splitPath (b : List UInt8) : List FileName := b.splitOn 47

/-- The path starts at the root directory. -/
def isAbsolute (b : List UInt8) : Bool := b.head? = some 47

namespace FileTree

variable {α : Type u} (t : FileTree α)

/-- `os.lstat`. -/
def node (p : Path) : Option (Node α) := if p = [] then some .directory else Dict.get? p t.entries

/-- `os.readlink`, for a link. -/
def readlink (p : Path) : Option (List UInt8) :=
  match t.node p with
  | some (.link target) => some target
  | _ => none

/-- The number of links. -/
def links : Nat := t.entries.countP fun e => e.2.isLink

/-- The loop of `realpath` over the names that are left; `follow` resolves a link from the directory
it stands in. -/
def walk (follow : Path → List UInt8 → Option Path) : Path → List FileName → Option Path
  | path, [] => some path
  | path, name :: rest =>
    if name = [] ∨ name = dot then walk follow path rest
    else if name = dotdot then walk follow path.dropLast rest
    else
      match t.readlink (path ++ [name]) with
      | some target => (follow path target).bind fun path => walk follow path rest
      | none => walk follow (path ++ [name]) rest

/-- What a link stands for, through at most `n` links at a time. -/
def follow : Nat → Path → List UInt8 → Option Path
  | 0, _, _ => none
  | n + 1, path, target =>
    t.walk (follow n) (if isAbsolute target then [] else path) (splitPath target)

/-- `realpath`: a link that leads through more links than there are leads to itself. -/
def realpath (names : List FileName) : Option Path := t.walk (t.follow t.links) [] names

/-- `os.stat` of a path that `realpath` has returned. -/
def stat (p : Path) : Option (Node α) := (t.realpath p).bind t.node

/-- No name on the way is a link, and none is a dot. -/
structure Settled (p : Path) : Prop where
  plain : ∀ name ∈ p, Plain name
  links : ∀ q, q <+: p → t.readlink q = none

variable {t}

theorem node_eq_some_iff {p : Path} (hp : p ≠ []) {x : Node α} :
    t.node p = some x ↔ (p, x) ∈ t.entries := by
  rw [node, if_neg hp, Dict.get?_eq_some_iff t.nodup]

theorem readlink_eq_some_iff {p : Path} {target : List UInt8} :
    t.readlink p = some target ↔ t.node p = some (.link target) := by
  rw [readlink]
  split
  · rename_i target' hnode
    rw [hnode, Option.some.injEq, Option.some.injEq, Node.link.injEq]
  · rename_i hnode
    exact ⟨fun h => (by cases h), fun h => absurd h (hnode target)⟩

theorem readlink_of_node {p : Path} {x : Node α} (h : t.node p = some x) (hx : x.isLink = false) :
    t.readlink p = none := by
  rw [readlink, h]
  cases x with
  | link target => cases hx
  | _ => rfl

/-- What an entry lies in is a directory. -/
theorem node_parent {p : Path} {name : FileName} {x : Node α} (h : t.node (p ++ [name]) = some x) :
    t.node p = some .directory := by
  have hmem := (node_eq_some_iff (by simp)).1 h
  have hparent := t.parents _ hmem
  rw [List.dropLast_concat] at hparent
  rw [node]
  split
  · rfl
  · rename_i hp
    exact hparent hp

/-- The directories on the way to an entry. -/
theorem node_of_append {p q : Path} (hq : q ≠ []) {x : Node α} (h : t.node (p ++ q) = some x) :
    t.node p = some .directory := by
  induction q using List.reverseRecOn generalizing x with
  | nil => exact absurd rfl hq
  | append_singleton q name ih =>
    rw [← List.append_assoc] at h
    have hdir := node_parent h
    by_cases hnil : q = []
    · rw [hnil, List.append_nil] at hdir
      exact hdir
    · exact ih hnil hdir

theorem isName_of_node {p : Path} {x : Node α} (h : t.node p = some x) :
    ∀ name ∈ p, IsName name := by
  by_cases hp : p = []
  · rw [hp]
    exact fun name hname => absurd hname List.not_mem_nil
  · exact (t.named _ ((node_eq_some_iff hp).1 h)).2

/-- An entry that is not a link itself stands where its path says. -/
theorem settled_of_node {p : Path} {x : Node α} (h : t.node p = some x) (hx : x.isLink = false) :
    t.Settled p := by
  refine ⟨fun name hname => (isName_of_node h name hname).1, fun q hq => ?_⟩
  obtain ⟨r, rfl⟩ := hq
  by_cases hr : r = []
  · rw [hr, List.append_nil] at h
    exact readlink_of_node h hx
  · exact readlink_of_node (node_of_append hr h) rfl

theorem Settled.nil : t.Settled [] := by
  refine ⟨fun name hname => absurd hname List.not_mem_nil, fun q hq => ?_⟩
  rw [List.prefix_nil.1 hq]
  rfl

theorem Settled.of_le {p q : Path} (h : t.Settled p) (hq : q <+: p) : t.Settled q :=
  ⟨fun name hname => h.plain name (hq.subset hname), fun r hr => h.links r (hr.trans hq)⟩

/-- A settled path stays settled under a name that is no link. -/
theorem Settled.concat {p : Path} {name : FileName} (h : t.Settled p) (hname : Plain name)
    (hlink : t.readlink (p ++ [name]) = none) : t.Settled (p ++ [name]) := by
  refine ⟨fun name' hname' => ?_, fun q hq => ?_⟩
  · rcases List.mem_append.1 hname' with hname' | hname'
    · exact h.plain name' hname'
    · rw [List.mem_singleton.1 hname']
      exact hname
  · rcases List.prefix_concat_iff.1 hq with rfl | hq
    · exact hlink
    · exact h.links q hq

/-- From a settled path the loop comes to a settled one, when links do. -/
theorem walk_settled {follow : Path → List UInt8 → Option Path}
    (hfollow : ∀ path target p, t.Settled path → follow path target = some p → t.Settled p)
    {path p : Path} {names : List FileName} (hpath : t.Settled path)
    (h : t.walk follow path names = some p) : t.Settled p := by
  induction names generalizing path with
  | nil =>
    cases h
    exact hpath
  | cons name rest ih =>
    rw [walk] at h
    split at h
    · exact ih hpath h
    · rename_i hempty
      split at h
      · exact ih (hpath.of_le (List.dropLast_prefix path)) h
      · rename_i hdots
        split at h
        · obtain ⟨path', hlink, h⟩ := Option.bind_eq_some_iff.1 h
          exact ih (hfollow _ _ _ hpath hlink) h
        · rename_i hlink
          obtain ⟨hnil, hdot⟩ := not_or.1 hempty
          exact ih (hpath.concat ⟨hnil, hdot, hdots⟩ hlink) h

theorem follow_settled (n : Nat) {path p : Path} {target : List UInt8} (hpath : t.Settled path)
    (h : t.follow n path target = some p) : t.Settled p := by
  induction n generalizing path p target with
  | zero => cases h
  | succ n ih =>
    refine walk_settled (fun _ _ _ hpath h => ih hpath h) ?_ h
    split
    · exact .nil
    · exact hpath

/-- What `realpath` returns is settled. -/
theorem realpath_settled {names : List FileName} {p : Path} (h : t.realpath names = some p) :
    t.Settled p :=
  walk_settled (fun _ _ _ hpath h => follow_settled _ hpath h) .nil h

/-- A settled path is left as it is. -/
theorem walk_of_settled (follow : Path → List UInt8 → Option Path) {p q : Path}
    (h : t.Settled (p ++ q))
    (rest : List FileName) : t.walk follow p (q ++ rest) = t.walk follow (p ++ q) rest := by
  induction q generalizing p with
  | nil => rw [List.nil_append, List.append_nil]
  | cons name q ih =>
    obtain ⟨hnil, hdot, hdots⟩ := h.plain name (List.mem_append_right _ List.mem_cons_self)
    have hsplit : p ++ name :: q = p ++ [name] ++
      q := by rw [List.append_assoc, List.singleton_append]
    rw [hsplit] at h
    rw [hsplit, List.cons_append, walk, if_neg (not_or.2 ⟨hnil, hdot⟩), if_neg hdots, ← ih h,
      h.links _ (List.prefix_append _ _)]

theorem realpath_append {p : Path} (h : t.Settled p) (names : List FileName) :
    t.realpath (p ++ names) = t.walk (t.follow t.links) p names := by
  have hwalk := walk_of_settled (t.follow t.links) (p := []) (q := p) h names
  rwa [List.nil_append] at hwalk

theorem realpath_of_settled {p : Path} (h : t.Settled p) : t.realpath p = some p := by
  have hrest := realpath_append h []
  rwa [List.append_nil] at hrest

/-- What stands at a settled path is the entry itself. -/
theorem stat_of_settled {p : Path} (h : t.Settled p) : t.stat p = t.node p := by
  rw [stat, realpath_of_settled h]
  rfl

/-! ## Trees with the same links -/

variable {t' : FileTree α}

/-- The walk reads nothing of a tree but its links. -/
theorem walk_congr {follow : Path → List UInt8 → Option Path}
    (h : ∀ p, t.readlink p = t'.readlink p)
    (path : Path) (names : List FileName) : t.walk follow path names = t'.walk
    follow path names := by
  induction names generalizing path with
  | nil => rfl
  | cons name rest ih =>
    rw [walk, walk, ih, ih, ih, h]
    split
    · rfl
    · split
      · rfl
      · split
        · exact congrArg _ (funext fun path' => ih path')
        · rfl

theorem follow_congr (h : ∀ p, t.readlink p = t'.readlink p) (n : Nat) :
    t.follow n = t'.follow n := by
  induction n with
  | zero => rfl
  | succ n ih =>
    funext path target
    rw [follow, follow, ih]
    exact walk_congr h _ _

/-- The links, each once. -/
theorem links_eq : t.links = ((t.entries.filter fun e => e.2.isLink).map Prod.fst).length := by
  rw [links, List.countP_eq_length_filter, List.length_map]

/-- The links of a tree are the paths at which `readlink` gives a target. -/
theorem mem_links_iff {p : Path} :
    p ∈ (t.entries.filter fun e => e.2.isLink).map Prod.fst ↔
      ∃ target, t.readlink p = some target := by
  constructor
  · intro h
    obtain ⟨⟨q, x⟩, hmem, rfl⟩ := List.mem_map.1 h
    obtain ⟨hentry, hlink⟩ := List.mem_filter.1 hmem
    cases x with
    | link target =>
      exact ⟨target, readlink_eq_some_iff.2 ((node_eq_some_iff (t.named _ hentry).1).2 hentry)⟩
    | _ => cases hlink
  · rintro ⟨target, h⟩
    have hnode := readlink_eq_some_iff.1 h
    have hp : p ≠ [] := by
      rintro rfl
      rw [node, if_pos rfl] at hnode
      cases hnode
    exact List.mem_map.2
      ⟨(p, .link target), List.mem_filter.2 ⟨(node_eq_some_iff hp).1 hnode, rfl⟩, rfl⟩

/-- What a path stands for is a matter of the links alone. -/
theorem realpath_congr (h : ∀ p, t.readlink p = t'.readlink p) (names : List FileName) :
    t.realpath names = t'.realpath names := by
  have hlinks : t.links = t'.links := by
    rw [links_eq, links_eq]
    have hnodup : ∀ t : FileTree α, ((t.entries.filter fun e => e.2.isLink).map Prod.fst).Nodup :=
        fun t =>
      t.nodup.sublist (List.filter_sublist.map Prod.fst)
    refine ((List.perm_ext_iff_of_nodup (hnodup t) (hnodup t')).2 fun p => ?_).length_eq
    rw [mem_links_iff, mem_links_iff, h]
  rw [realpath, realpath, hlinks, follow_congr h]
  exact walk_congr h _ _

end FileTree

end LocalPost.Core
