import LocalPost.Http.Static.Serve

/-!
# Nothing outside the root

An answer about a file is about a regular file below the root directory (`handle_ok`). More than
that: what stands outside the root, and is not a link, has no influence on any answer
(`handle_congr`), neither its bytes nor its size or time, nor whether it is there.
-/

set_option autoImplicit false

namespace LocalPost.Http.Static

open LocalPost.Core LocalPost.Http.Writer LocalPost.Http.Wsgi

variable {lib : Library} {cfg : Config} {tree tree' : FileTree File} {req : Request} {a : Answer}

/-- An answer says that there is nothing, or is about a regular file below the root. -/
theorem handle_ok (h : handle lib cfg tree req = .ok a) :
    a = methodNotAllowed ∨ a = sendNotFound req.method ∨
      ∃ p f, cfg.root <+: p ∧ tree.node p = some (.regular f) ∧ serve lib cfg req p f = .ok a := by
  rw [handle] at h
  split at h
  · exact .inl (Except.ok.inj h).symm
  · split at h
    · exact .inr (.inl (Except.ok.inj h).symm)
    · split at h
      · cases h
      · exact .inr (.inl (Except.ok.inj h).symm)
      · rename_i p hresolve
        obtain ⟨hroot, hsettled⟩ := resolve_inside hresolve
        split at h
        · rename_i f hstat
          rw [FileTree.stat_of_settled hsettled] at hstat
          exact .inr (.inr ⟨p, f, hroot, hstat, h⟩)
        · exact .inr (.inl (Except.ok.inj h).symm)

section

variable (hlinks : ∀ p, tree.readlink p = tree'.readlink p)
  (hinside : ∀ p, cfg.root <+: p → tree.node p = tree'.node p)

include hlinks in
theorem realpath_eq (names : List FileName) : realpath tree names = realpath tree' names := by
  rw [realpath, realpath, FileTree.realpath_congr hlinks]

include hlinks hinside in
/-- What stands at a path below the root, through the links. -/
theorem stat_eq {p : Path} (hroot : cfg.root <+: p) (hsettled : tree.Settled p) :
    tree.stat p = tree'.stat p := by
  have hreal : tree'.realpath p = some p := by
    rw [← FileTree.realpath_congr hlinks, FileTree.realpath_of_settled hsettled]
  rw [FileTree.stat_of_settled hsettled, FileTree.stat, hreal, Option.bind_some, hinside p hroot]

include hlinks hinside in
/-- The same links and the same files below the root lead to the same result. -/
theorem resolve_eq (rel : Bytes) (index : Option Bytes) :
    resolve tree cfg.root rel index = resolve tree' cfg.root rel index := by
  rw [resolve, resolve, realpath_eq hlinks]
  split
  · rfl
  · split
    · rfl
    · split
      · rfl
      · split
        · rfl
        · rename_i candidate hreal
          split
          · rfl
          · rename_i q hcandidate
            obtain ⟨rfl, hroot⟩ := inside_some hcandidate
            rw [← realpath_eq hlinks] at hreal
            have hsettled := FileTree.realpath_settled (realpath_ok hreal)
            rw [withIndex.eq_def, withIndex.eq_def, stat_eq hlinks hinside hroot hsettled]
            split
            · cases index with
              | none => rfl
              | some name => exact congrArg (Except.map (inside cfg.root)) (realpath_eq hlinks _)
            · rfl

end

/-- Two states of the file system with the same links, and with the same files and directories below
the root, get the same answers. -/
theorem handle_congr (hlinks : ∀ p, tree.readlink p = tree'.readlink p)
    (hinside : ∀ p, cfg.root <+: p → tree.node p = tree'.node p) (lib : Library) (req : Request) :
    handle lib cfg tree req = handle lib cfg tree' req := by
  rw [handle, handle, resolve_eq hlinks hinside]
  split
  · rfl
  · split
    · rfl
    · split
      · rfl
      · rfl
      · rename_i target hresolve
        rw [← resolve_eq hlinks hinside] at hresolve
        obtain ⟨hroot, hsettled⟩ := resolve_inside hresolve
        rw [stat_eq hlinks hinside hroot hsettled]

/-- A site `/s` with a page and a link, and a file outside it that the link leads to. -/
def siteTree (secret : Bytes) : FileTree File where
  entries := [([[115]], .directory), ([[115], [97]], .regular ⟨[104, 105], 0, true⟩),
    ([[115], [108]], .link [46, 46, 47, 101, 47, 112]), ([[101]], .directory),
    ([[101], [112]], .regular ⟨secret, 0, true⟩)]
  nodup :=
    (by decide : ([[[115]], [[115], [97]], [[115], [108]], [[101]], [[101], [112]]] :
      List Path).Nodup)
  named := fun e he =>
    (by decide : ∀ p ∈ ([[[115]], [[115], [97]], [[115], [108]], [[101]], [[101], [112]]] :
      List Path), p ≠ [] ∧ ∀ name ∈ p, IsName name) e.1 (List.mem_map_of_mem he)
  parents := fun e he hne => by
    simp only [List.mem_cons, List.not_mem_nil, or_false] at he
    rcases he with rfl | rfl | rfl | rfl | rfl
    · exact absurd rfl hne
    · rfl
    · rfl
    · exact absurd rfl hne
    · rfl

theorem node_siteTree {p : Path} (hp : p ≠ [[101], [112]]) (secret secret' : Bytes) :
    (siteTree secret).node p = (siteTree secret').node p := by
  simp only [FileTree.node, siteTree, Dict.get?_cons, if_neg (Ne.symm hp)]

/-- A library whose dates are never read. -/
def plainLibrary : Library := ⟨fun _ => [], id, fun _ => none, fun _ => none, 4300⟩

/-- The site at the URL root. -/
def siteConfig : Config := ⟨[[115]], [47], none, none⟩

/-- A request for the link. -/
def linkRequest : Request := .ofTarget getMethod [47, 108] [] [49, 46, 49]

/-- What the link leads to does not show. -/
theorem handle_congr_siteTree :
    handle plainLibrary siteConfig (siteTree [1, 2, 3]) linkRequest =
      handle plainLibrary siteConfig (siteTree [4]) linkRequest := by
  refine handle_congr (fun p => ?_) (fun p hp => node_siteTree ?_ _ _) plainLibrary linkRequest
  · by_cases hp : p = [[101], [112]]
    · rw [hp]
      rfl
    · rw [FileTree.readlink, FileTree.readlink, node_siteTree hp]
  · rintro rfl
    exact absurd hp (by decide)

end LocalPost.Http.Static
