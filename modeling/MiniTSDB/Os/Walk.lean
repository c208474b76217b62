import MiniTSDB.Os.Tree

/-!
# Going along any path, and making directories

What a path with `..` leads to depends on the tree only in whether it leads anywhere: if it does,
it is the place that `normalise` says (`resolve_eq_normalise`). So a path can be taken in two parts
(`resolve_append`), and a tree from which something has been removed has fewer paths, but none
that leads elsewhere (`Tree.Sub.resolve`).

`fs::CreateDirectories` calls `mkdir` for every beginning of a path, and makes what is not there.
-/

namespace MiniTSDB
namespace Os

variable {t t' : Tree}

/-! ## Paths in parts -/

/-- A path, gone along from a directory. -/
def Tree.walk (t : Tree) (cwd : Path) (path : Bytes) : Option Path :=
  (path.splitOn slash).foldlM t.step cwd

theorem resolve_append (a b : Bytes) :
    t.resolve (a ++ slash :: b) = (t.resolve a).bind fun cwd => t.walk cwd b := by
  rw [Tree.resolve, splitOn_slash_append, List.foldlM_append]
  rfl

/-- What a path goes on from is there, if the path is. -/
theorem pathExists_of_append {a b : Bytes} (h : t.pathExists (a ++ slash :: b) = true) :
    t.pathExists a = true := by
  unfold Tree.pathExists at h ⊢
  rw [resolve_append] at h
  exact Option.isSome_of_isSome_bind h

theorem walk_append (cwd : Path) (a b : Bytes) :
    t.walk cwd (a ++ slash :: b) = (t.walk cwd a).bind fun cwd => t.walk cwd b := by
  rw [Tree.walk, splitOn_slash_append, List.foldlM_append]
  rfl

theorem step_name {cwd : Path} {name : Bytes} (hname : isComponent name = true)
    (hup : name ≠ dotDot) : t.step cwd name =
      if t.node cwd = some .dir ∧ (t.node (cwd ++ [name])).isSome = true
      then some (cwd ++ [name]) else none := by
  have hparts := of_decide_eq_true hname
  unfold Tree.step
  by_cases hdir : t.node cwd = some .dir
  · rw [if_neg (not_not_intro hdir), if_neg (not_or.mpr hparts), if_neg hup]
    simp only [hdir, true_and]
  · rw [if_pos hdir, if_neg fun h => hdir h.1]

theorem IsName.isComponent {name : Bytes} (h : IsName name) : isComponent name = true :=
  decide_eq_true ⟨h.nonempty, h.notDot⟩

theorem walk_name {cwd : Path} {name : Bytes} (h : IsName name) : t.walk cwd name =
    if t.node cwd = some .dir ∧ (t.node (cwd ++ [name])).isSome = true
    then some (cwd ++ [name]) else none := by
  rw [Tree.walk, h.splitOn, List.foldlM_cons, step_name h.isComponent h.notDotDot]
  split
  · rfl
  · rfl

/-- What follows a slash at the end of a path is the directory itself. -/
theorem walk_nil {cwd : Path} :
    t.walk cwd [] = if t.node cwd = some .dir then some cwd else none := by
  have hsplit : ([] : Bytes).splitOn slash = [[]] := by decide
  rw [Tree.walk, hsplit, List.foldlM_cons, Tree.step]
  by_cases hdir : t.node cwd = some .dir
  · rw [if_neg (not_not_intro hdir), if_pos (.inl rfl), if_pos hdir]
    rfl
  · rw [if_pos hdir, if_neg hdir]
    rfl

/-- A step leads to something. -/
theorem node_of_step {cwd p : Path} {name : Bytes} (h : t.step cwd name = some p) :
    (t.node p).isSome = true := by
  unfold Tree.step at h
  split at h
  case isTrue => cases h
  case isFalse hdir =>
    rw [not_not] at hdir
    split at h
    case isTrue =>
      cases h
      rw [hdir]
      rfl
    case isFalse =>
      split at h
      case isTrue =>
        cases h
        cases cwd using List.reverseRecOn with
        | nil => rw [List.dropLast_nil, t.root]; rfl
        | append_singleton dirs last =>
          rw [List.dropLast_concat, t.closed dirs last (by rw [hdir]; rfl)]
          rfl
      case isFalse =>
        split at h
        case isTrue hthere =>
          cases h
          exact hthere
        case isFalse => cases h

theorem node_of_resolve {path : Bytes} {p : Path} (h : t.resolve path = some p) :
    (t.node p).isSome = true := by
  unfold Tree.resolve at h
  cases hpieces : path.splitOn slash using List.reverseRecOn with
  | nil =>
    rw [hpieces] at h
    cases h
    rw [t.root]
    rfl
  | append_singleton pieces last =>
    rw [hpieces, List.foldlM_append] at h
    obtain ⟨cwd, -, h⟩ := Option.bind_eq_some_iff.mp h
    rw [List.foldlM_cons] at h
    obtain ⟨q, hq, h⟩ := Option.bind_eq_some_iff.mp h
    cases h
    exact node_of_step hq

/-! ## Where a path would lead -/

/-- One piece more. -/
def goPiece (cwd : Path) (piece : Bytes) : Path :=
  if isComponent piece then if piece = dotDot then cwd.dropLast else cwd ++ [piece] else cwd

/-- The place of a path, by its text alone. -/
def normalise (path : Bytes) : Path := (path.splitOn slash).foldl goPiece []

theorem goPiece_of_step {cwd p : Path} {piece : Bytes} (h : t.step cwd piece = some p) :
    p = goPiece cwd piece := by
  by_cases hpiece : isComponent piece = true
  · rw [goPiece, if_pos hpiece]
    have hparts := of_decide_eq_true hpiece
    unfold Tree.step at h
    rw [if_neg (not_or.mpr hparts)] at h
    split at h
    case isTrue => cases h
    case isFalse =>
      split at h
      case isTrue hup =>
        rw [if_pos hup]
        exact (Option.some.inj h).symm
      case isFalse hup =>
        rw [if_neg hup]
        split at h
        case isTrue => exact (Option.some.inj h).symm
        case isFalse => cases h
  · have hstays : piece = [] ∨ piece = dot := by
      rw [isComponent, decide_eq_true_eq, not_and_or, not_not, not_not] at hpiece
      exact hpiece
    rw [goPiece, if_neg hpiece]
    unfold Tree.step at h
    rw [if_pos hstays] at h
    split at h
    case isTrue => cases h
    case isFalse => exact (Option.some.inj h).symm

/-- **A path that leads anywhere leads to its normal form.** -/
theorem resolve_eq_normalise {path : Bytes} {p : Path} (h : t.resolve path = some p) :
    p = normalise path := by
  have hwalk : ∀ (pieces : List Bytes) (cwd p : Path), pieces.foldlM t.step cwd = some p →
      p = pieces.foldl goPiece cwd := by
    intro pieces
    induction pieces with
    | nil =>
      intro cwd p h
      cases h
      rfl
    | cons piece pieces ih =>
      intro cwd p h
      rw [List.foldlM_cons] at h
      obtain ⟨q, hq, hrest⟩ := Option.bind_eq_some_iff.mp h
      rw [List.foldl_cons, ← goPiece_of_step hq]
      exact ih q p hrest
  exact hwalk _ _ _ h

theorem normalise_append (a b : Bytes) :
    normalise (a ++ slash :: b) = (b.splitOn slash).foldl goPiece (normalise a) := by
  rw [normalise, splitOn_slash_append, List.foldl_append]
  rfl

theorem normalise_name (a : Bytes) {name : Bytes} (h : IsName name) :
    normalise (a ++ slash :: name) = normalise a ++ [name] := by
  rw [normalise_append, h.splitOn, List.foldl_cons, List.foldl_nil, goPiece, if_pos h.isComponent,
    if_neg h.notDotDot]

theorem normalise_slash (a : Bytes) : normalise (a ++ slash :: []) = normalise a := by
  have hnil : ([] : Bytes).splitOn slash = [[]] := by decide
  rw [normalise_append, hnil]
  rfl

/-- How far up a text goes from where it starts, and what it then goes down to. -/
def climbPiece (c : Nat × Path) (piece : Bytes) : Nat × Path :=
  if isComponent piece then
    if piece = dotDot then if c.2 = [] then (c.1 + 1, []) else (c.1, c.2.dropLast)
    else (c.1, c.2 ++ [piece])
  else c

def climb (path : Bytes) : Nat × Path := (path.splitOn slash).foldl climbPiece (0, [])

theorem goPiece_climbed (cwd : Path) (c : Nat × Path) (piece : Bytes) :
    goPiece (cwd.take (cwd.length - c.1) ++ c.2) piece
      = cwd.take (cwd.length - (climbPiece c piece).1) ++ (climbPiece c piece).2 := by
  unfold goPiece climbPiece
  split
  case isFalse => rfl
  case isTrue =>
    split
    case isFalse => rw [List.append_assoc]
    case isTrue =>
      split
      case isTrue hnil =>
        rw [hnil, List.append_nil, List.append_nil, List.dropLast_eq_take, List.take_take,
          List.length_take]
        congr 1
        omega
      case isFalse hne => rw [List.dropLast_append_of_ne_nil hne]

/-- **What is behind a slash goes so far up, and down again.** -/
theorem normalise_climb (a b : Bytes) : normalise (a ++ slash :: b)
    = (normalise a).take ((normalise a).length - (climb b).1) ++ (climb b).2 := by
  have hfold : ∀ (pieces : List Bytes) (c : Nat × Path),
      pieces.foldl goPiece ((normalise a).take ((normalise a).length - c.1) ++ c.2)
        = (normalise a).take ((normalise a).length - (pieces.foldl climbPiece c).1)
          ++ (pieces.foldl climbPiece c).2 := by
    intro pieces
    induction pieces with
    | nil => exact fun c => rfl
    | cons piece pieces ih =>
      intro c
      rw [List.foldl_cons, List.foldl_cons, goPiece_climbed]
      exact ih _
  have hstart := hfold (b.splitOn slash) (0, [])
  rw [Nat.sub_zero, List.take_length, List.append_nil] at hstart
  rw [normalise_append, hstart, climb]

/-! ## Fewer paths -/

/-- What is in the first tree is in the second, the same. -/
def Tree.Sub (t' t : Tree) : Prop := ∀ q node, t'.node q = some node → t.node q = some node

theorem Tree.Sub.refl (t : Tree) : t.Sub t := fun _ _ h => h

theorem Tree.Sub.trans {t'' : Tree} (h' : t''.Sub t') (h : t'.Sub t) : t''.Sub t :=
  fun q node hnode => h q node (h' q node hnode)

theorem Tree.Sub.step (h : t'.Sub t) {cwd p : Path} {name : Bytes}
    (hstep : t'.step cwd name = some p) : t.step cwd name = some p := by
  unfold Tree.step at hstep ⊢
  by_cases hdir : t'.node cwd = some .dir
  · rw [if_neg (not_not_intro hdir)] at hstep
    rw [if_neg (not_not_intro (h cwd .dir hdir))]
    split at hstep
    case isTrue hstays => rw [if_pos hstays, hstep]
    case isFalse hstays =>
      rw [if_neg hstays]
      split at hstep
      case isTrue hup => rw [if_pos hup, hstep]
      case isFalse hup =>
        rw [if_neg hup]
        split at hstep
        case isTrue hthere =>
          obtain ⟨node, hnode⟩ := Option.isSome_iff_exists.mp hthere
          rw [if_pos (by rw [h _ node hnode]; rfl), hstep]
        case isFalse => cases hstep
  · rw [if_pos hdir] at hstep
    cases hstep

theorem Tree.Sub.foldlM (h : t'.Sub t) {pieces : List Bytes} {cwd p : Path}
    (hwalk : pieces.foldlM t'.step cwd = some p) : pieces.foldlM t.step cwd = some p := by
  induction pieces generalizing cwd with
  | nil => exact hwalk
  | cons piece pieces ih =>
    rw [List.foldlM_cons] at hwalk ⊢
    obtain ⟨q, hq, hrest⟩ := Option.bind_eq_some_iff.mp hwalk
    exact Option.bind_eq_some_iff.mpr ⟨q, h.step hq, ih hrest⟩

/-- **A path that is left leads where it led.** -/
theorem Tree.Sub.resolve (h : t'.Sub t) {path : Bytes} {p : Path}
    (hpath : t'.resolve path = some p) : t.resolve path = some p := h.foldlM hpath

theorem sub_remove (t : Tree) (p : Path) (stays : Bool) : (t.remove p stays).Sub t := by
  intro q node h
  unfold Tree.remove at h
  dsimp only at h
  split at h
  case isTrue => cases h
  case isFalse => exact h

theorem sub_removeAll (t : Tree) (path : Bytes) : (t.removeAll path).Sub t := by
  unfold Tree.removeAll
  split
  · exact .refl t
  · exact sub_remove t _ _

/-! ## Directories that are made -/

/-- The tree with one more directory. -/
def Tree.addDir (t : Tree) (cwd : Path) (name : Bytes) (h : t.node cwd = some .dir) : Tree where
  node q := if q = cwd ++ [name] then some .dir else t.node q
  root := by rw [if_neg (by simp), t.root]
  closed := by
    intro q last hthere
    split at hthere
    case isTrue heq =>
      have hq : q = cwd := (List.append_inj' heq rfl).1
      rw [hq, if_neg (by simp), h]
    case isFalse =>
      split
      · rfl
      · exact t.closed q last hthere

/-- `mkdir` of a path, its last piece apart. A last piece that is no name, and one that is there
already, makes it fail. (Behind a slash `mkdir` would make the directory itself, but here it has
been called for that one before.) -/
def Tree.mkdir (t : Tree) (pieces : List Bytes) (name : Bytes) : Tree :=
  match pieces.foldlM t.step [] with
  | none => t
  | some cwd =>
    if isComponent name ∧ name ≠ dotDot ∧ t.node (cwd ++ [name]) = none then
      if h : t.node cwd = some .dir then t.addDir cwd name h else t
    else t

/-- The calls of `mkdir` for the pieces of a path, one longer each time. -/
def Tree.mkdirs (t : Tree) (done : List Bytes) : List Bytes → Tree
  | [] => t
  | piece :: rest => (t.mkdir done piece).mkdirs (done ++ [piece]) rest

/-- `fs::CreateDirectories`. -/
def Tree.createDirectories (t : Tree) (path : Bytes) : Tree := t.mkdirs [] (path.splitOn slash)

/-! ## What is removed -/

theorem removeAll_missing {path : Bytes} (h : t.resolve path = none) : t.removeAll path = t := by
  unfold Tree.removeAll
  rw [h]

/-- Elsewhere nothing goes. -/
theorem node_removeAll_of_not_le {path : Bytes} {q : Path}
    (h : ∀ p, t.resolve path = some p → ¬ p <+: q) : (t.removeAll path).node q = t.node q := by
  unfold Tree.removeAll
  split
  case h_1 => rfl
  case h_2 p hp => exact if_neg fun hle => h p hp hle.1

/-- What a path leads to goes, with everything below it. -/
theorem node_removeAll {path : Bytes} {p : Path} (h : t.resolve path = some p) (hne : p ≠ [])
    (hlast : ∀ piece ∈ (path.splitOn slash).getLast?, piece ≠ dot ∧ piece ≠ dotDot) (q : Path) :
    (t.removeAll path).node q = if p <+: q then none else t.node q := by
  have hstays : decide ((path.splitOn slash).getLast? = some dot ∨
      (path.splitOn slash).getLast? = some dotDot) = false := by
    rw [decide_eq_false_iff_not]
    rintro (hdot | hup)
    · exact (hlast dot hdot).1 rfl
    · exact (hlast dotDot hup).2 rfl
  unfold Tree.removeAll
  rw [h]
  dsimp only
  rw [hstays]
  unfold Tree.remove
  simp only [hne, ne_eq, not_false_eq_true, and_self, implies_true, and_true]

/-- A path whose last piece is a name. -/
def EndsInName (path : Bytes) : Prop :=
  ∃ pieces last, path.splitOn slash = pieces ++ [last] ∧ isComponent last = true ∧ last ≠ dotDot

theorem EndsInName.ne_nil {path : Bytes} {p : Path} (hpath : EndsInName path)
    (h : t.resolve path = some p) : p ≠ [] := by
  obtain ⟨pieces, last, hpieces, hname, hup⟩ := hpath
  rw [Tree.resolve, hpieces, List.foldlM_append] at h
  obtain ⟨cwd, -, h⟩ := Option.bind_eq_some_iff.mp h
  rw [List.foldlM_cons, step_name hname hup] at h
  split at h
  case isTrue =>
    cases h
    simp
  case isFalse => cases h

theorem EndsInName.node_removeAll {path : Bytes} {p : Path} (hpath : EndsInName path)
    (h : t.resolve path = some p) (q : Path) :
    (t.removeAll path).node q = if p <+: q then none else t.node q := by
  refine Os.node_removeAll h (hpath.ne_nil h) ?_ q
  obtain ⟨pieces, last, hpieces, hname, hup⟩ := hpath
  intro piece hpiece
  rw [hpieces, List.getLast?_concat, Option.mem_some_iff] at hpiece
  rw [← hpiece]
  exact ⟨(of_decide_eq_true hname).2, hup⟩

/-- What has been removed is not there. -/
theorem EndsInName.resolve_removeAll {path : Bytes} (hpath : EndsInName path) :
    (t.removeAll path).resolve path = none := by
  cases h : (t.removeAll path).resolve path with
  | none => rfl
  | some p =>
    have hthere := node_of_resolve h
    rw [hpath.node_removeAll ((sub_removeAll t path).resolve h), if_pos (List.prefix_refl p)]
      at hthere
    cases hthere

/-- A text is one piece, or ends in one. -/
theorem last_slash (a : Bytes) : slash ∉ a ∨ ∃ dir last, a = dir ++ slash :: last ∧ slash ∉ last := by
  by_cases h : slash ∈ a
  · right
    obtain ⟨after, before, heq, hnot⟩ := List.eq_append_cons_of_mem (List.mem_reverse.mpr h)
    refine ⟨before.reverse, after.reverse, ?_, by rwa [List.mem_reverse]⟩
    rw [← List.reverse_reverse a, heq]
    simp
  · exact .inl h

theorem endsInName_append (before : Bytes) {name : Bytes} (hslash : slash ∉ name)
    (hname : ∀ front, isComponent (front ++ name) = true ∧ front ++ name ≠ dotDot) :
    EndsInName (before ++ name) := by
  rcases last_slash before with hnot | ⟨dir, last, rfl, hnot⟩
  · have hsingle : (before ++ name).splitOn slash = [before ++ name] :=
      List.splitOn_eq_singleton (by simp [hnot, hslash])
    exact ⟨[], before ++ name, hsingle, hname before⟩
  · have hsingle : (last ++ name).splitOn slash = [last ++ name] :=
      List.splitOn_eq_singleton (by simp [hnot, hslash])
    refine ⟨dir.splitOn slash, last ++ name, ?_, hname last⟩
    rw [List.append_assoc, List.cons_append, splitOn_slash_append, hsingle]

end Os
end MiniTSDB
