import AssetBake.Failure
import AssetBake.FileTree.Resolve
import AssetBake.Exclude
import AssetBake.Log
import AssetBake.Table

/-!
# Walks

All files below a directory that an exclude list lets through, in the order of their relative paths. A
link to a file counts as a file; a link to a directory is entered only on demand, and never if the walk
is inside that directory already.

The process is a privileged one, as for every operation on a tree: the walk enters a directory whatever
its mode. What keeps it out is a path that is too long, or a link that cannot be resolved.
-/

namespace AssetBake

namespace Walk

/-- A directory that the walk has entered: its place, and the names that led there from the root. -/
structure Stop where
  place : Location
  way : List Name

/-- What a walk goes by: its root as a path from a working directory, and what it leaves out. -/
structure Rules where
  cwd : Location
  root : Path
  exclude : ExcludeList
  followLinks : Bool

/-- The file that some names lead to from the root. -/
def Rules.source (rules : Rules) (way : List Name) : Source where
  full := rules.root.join (.ofNames way)
  relative := .ofNames way

/-- What the records of a walk are filed under. -/
def target : String := "stdbake::walker"

/-- Whether the exclude list lets the walk see what some names lead to. -/
def Rules.admit (rules : Rules) (way : List Name) (isDirectory : Bool) :
    Traced Log.Record Failure Bool := do
  let relative := Path.ofNames way
  if rules.exclude.verdict relative.bytes isDirectory = .ignore then
    .note [⟨.debug, target, "excluded: " ++ relative.display⟩]
    return false
  return true

/-! ### Which directories can be entered -/

def directories (t : FileTree) : List Location :=
  [] :: (t.entries.filter fun e => e.2.isDirectory).map (·.1)

/-- The number of directories that the walk is not inside of. -/
def outside (t : FileTree) (chain : List Stop) : Nat :=
  ((directories t).filter fun d => d ∉ chain.map Stop.place).length

def sizeBelow (t : FileTree) (place : Location) : Nat :=
  (t.entries.filter fun e => place <:+ e.1 ∧ e.1 ≠ place).length

/-- Whether the walk may enter a directory: one that lies in the directory where it is, or any other
one that it is not inside of. -/
def CanEnter (t : FileTree) (chain : List Stop) (here next : Location) : Prop :=
  t.isDirectory next = true ∧
    (next ∉ chain.map Stop.place ∨ ∃ n, next = n :: here)

theorem mem_directories_iff (t : FileTree) (place : Location) :
    place ∈ directories t ↔ t.isDirectory place = true := by
  cases place with
  | nil => simp [directories]
  | cons n up =>
    rw [t.isDirectory_iff]
    simp only [directories, List.mem_cons, reduceCtorEq, false_or, List.mem_map, List.mem_filter]
    constructor
    · rintro ⟨⟨place, e⟩, ⟨hmem, hdir⟩, rfl⟩
      cases e with
      | directory mode => exact ⟨mode, (t.find?_eq_some_iff (by simp)).2 hmem⟩
      | file => simp [Entry.isDirectory] at hdir
      | link => simp [Entry.isDirectory] at hdir
    · rintro ⟨mode, hmode⟩
      exact ⟨(n :: up, .directory mode), ⟨(t.find?_eq_some_iff (by simp)).1 hmode, rfl⟩, rfl⟩

theorem length_filter_lt {α : Type} {p q : α → Bool} {l : List α} (hpq : ∀ a ∈ l, p a → q a)
    {x : α} (hx : x ∈ l) (hp : p x = false) (hq : q x = true) :
    (l.filter p).length < (l.filter q).length := by
  induction l with
  | nil => simp at hx
  | cons a l ih =>
    have hle : (l.filter p).length ≤ (l.filter q).length := by
      rw [← List.countP_eq_length_filter, ← List.countP_eq_length_filter]
      exact List.countP_mono_left fun b hb => hpq b (List.mem_cons_of_mem _ hb)
    rcases List.mem_cons.1 hx with rfl | hmem
    · rw [List.filter_cons_of_neg (by simp [hp]), List.filter_cons_of_pos hq]
      exact Nat.lt_succ_of_le hle
    · have hlt := ih (fun b hb => hpq b (List.mem_cons_of_mem _ hb)) hmem
      by_cases hpa : p a = true
      · rw [List.filter_cons_of_pos hpa, List.filter_cons_of_pos (hpq a List.mem_cons_self hpa)]
        exact Nat.succ_lt_succ hlt
      · rw [List.filter_cons_of_neg hpa]
        by_cases hqa : q a = true
        · rw [List.filter_cons_of_pos hqa]
          exact Nat.lt_succ_of_lt hlt
        · rw [List.filter_cons_of_neg hqa]
          exact hlt

theorem outside_cons_le (t : FileTree) (stop : Stop) (chain : List Stop) :
    outside t (stop :: chain) ≤ outside t chain := by
  simp only [outside, ← List.countP_eq_length_filter]
  refine List.countP_mono_left fun d _ hd => ?_
  simp only [List.map_cons, List.mem_cons, not_or, decide_eq_true_eq] at hd ⊢
  exact hd.2

theorem outside_cons_lt {t : FileTree} {stop : Stop} {chain : List Stop}
    (hdir : t.isDirectory stop.place = true) (hnew : stop.place ∉ chain.map Stop.place) :
    outside t (stop :: chain) < outside t chain := by
  refine length_filter_lt (fun d _ hd => ?_) ((mem_directories_iff t _).2 hdir) (by simp)
    (by simpa using hnew)
  simp only [List.map_cons, List.mem_cons, not_or, decide_eq_true_eq] at hd ⊢
  exact hd.2

theorem sizeBelow_cons_lt {t : FileTree} {n : Name} {place : Location}
    (hdir : t.isDirectory (n :: place) = true) : sizeBelow t (n :: place) < sizeBelow t place := by
  obtain ⟨mode, hmode⟩ := (t.isDirectory_iff _).1 hdir
  have hmem := (t.find?_eq_some_iff (by simp)).1 hmode
  refine length_filter_lt (fun e _ he => ?_) hmem (by simp) (by simp)
  simp only [decide_eq_true_eq] at he ⊢
  have hbelow := (List.suffix_cons n place).trans he.1
  refine ⟨hbelow, fun heq => ?_⟩
  have hle := he.1.length_le
  rw [heq, List.length_cons] at hle
  exact Nat.not_succ_le_self _ hle

/-! ### The entries of a directory -/

/-- What an entry is to a walk. -/
inductive Finding (t : FileTree) (chain : List Stop) (here : Location)
  | nothing
  | file
  | directory (next : Location) (enter : CanEnter t chain here next)

/-- Why a directory that cannot be opened stops the walk, or a link stops the one that goes through
links. -/
def openFailure (path : Path) (fault : PathFault) : Failure :=
  .assetReadFailure path
    ("IO error for operation on " ++ path.display ++ ": " ++ fault.message)

/-- Why a link stops the walk that does not. -/
def unresolvedLink (path : Path) (fault : PathFault) : Failure :=
  .assetReadFailure path ("cannot resolve symlink: " ++ fault.message)

/-- Why a link to a directory that the walk is inside of stops it. -/
def loopFailure (path ancestor : Path) : Failure :=
  .assetReadFailure path
    ("File system loop found: " ++ path.display ++ " points to an ancestor " ++ ancestor.display)

/-- The root, or what some names lead to from it. -/
def Rules.fullPath (rules : Rules) (way : List Name) : Path :=
  if way.isEmpty then rules.root else (rules.source way).full

/-- Looks at an entry of the directory `here`, which is the first of the chain of directories that
the walk is inside of. The system opens a directory and resolves a link by the whole path from the
working directory. A walk that goes through links resolves a link before it asks whether the link is
excluded, any other walk after. -/
def look (t : FileTree) (rules : Rules) (chain : List Stop) (here : Stop) (n : Name) :
    Traced Log.Record Failure (Finding t chain here.place) := do
  let way := here.way ++ [n]
  let path := rules.fullPath way
  match h : t.find? (n :: here.place) with
  | none => return .nothing
  | some (.file ..) => return if ← rules.admit way false then .file else .nothing
  | some (.directory mode) =>
    if ← rules.admit way true then
      match FileTree.checkPath path with
      | .error fault => .fail (openFailure path fault)
      | .ok () =>
        return .directory (n :: here.place)
          ⟨(t.isDirectory_iff _).2 ⟨mode, h⟩, .inr ⟨n, rfl⟩⟩
    else return .nothing
  | some (.link _) =>
    let resolved := t.resolve rules.cwd path
    if rules.followLinks then
      match resolved with
      | .error fault => .fail (openFailure path fault)
      | .ok next =>
        if hdir : t.isDirectory next = true then
          match hloop : chain.find? fun stop => stop.place = next with
          | some ancestor => .fail (loopFailure path (rules.fullPath ancestor.way))
          | none =>
            if ← rules.admit way true then
              return .directory next ⟨hdir, .inl fun hmem => by
                obtain ⟨stop, hstop, hplace⟩ := List.mem_map.1 hmem
                exact absurd hplace (by simpa using List.find?_eq_none.1 hloop stop hstop)⟩
            else return .nothing
        else return if ← rules.admit way false then .file else .nothing
    else if ← rules.admit way false then
      match resolved with
      | .error fault => .fail (unresolvedLink path fault)
      | .ok next => return if t.isDirectory next then .nothing else .file
    else return .nothing

/-- The file that some names lead to, and a record of it. -/
def Rules.take (rules : Rules) (way : List Name) : Traced Log.Record Failure (List Source) := do
  let source := rules.source way
  .note [⟨.trace, target, "found: " ++ source.relative.display⟩]
  return [source]

/-- The files that the entries with the given names lead to. -/
def visit (t : FileTree) (rules : Rules) (above : List Stop) (here : Stop) :
    List Name → Traced Log.Record Failure (List Source)
  | [] => return []
  | n :: rest => do
    let way := here.way ++ [n]
    let finding ← look t rules (here :: above) here n
    let found ← (match finding with
      | .nothing => pure []
      | .file => rules.take way
      | .directory next _enter => visit t rules (here :: above) ⟨next, way⟩ (t.names next))
    let more ← visit t rules above here rest
    return found ++ more
termination_by names => (outside t (here :: above), sizeBelow t here.place, names.length)
decreasing_by
  · rcases _enter.2 with hnew | ⟨m, rfl⟩
    · exact Prod.Lex.left _ _ (outside_cons_lt _enter.1 hnew)
    · refine Prod.Lex.right' _ (outside_cons_le t _ _) (Prod.Lex.left _ _ ?_)
      exact sizeBelow_cons_lt _enter.1
  · exact Prod.Lex.right' _ (Nat.le_refl _) (Prod.Lex.right' _ (Nat.le_refl _) (Nat.lt_succ_self _))

/-- Whether the root stands for standard input, which holds no files. -/
def isStandardInput (root : Path) : Bool :=
  match root.components with
  | [.name n] => n.bytes == [0x2d]
  | _ => false

/-- Whether one file goes before another, or level with it. -/
def inOrder (a b : Source) : Bool :=
  a.relative.componentText ≤ b.relative.componentText

end Walk

open Walk

/-- What a refused exclude list is filed under. -/
def excludeSource : Path := .ofString "exclude"

/-- The files below a directory, sorted by their relative paths. -/
def FileTree.walk (t : FileTree) (cwd : Location) (root : Path) (exclude : List (List Char))
    (followLinks : Bool) : Traced Log.Record Failure (List Source) := do
  match t.resolve cwd root with
  | .error _ => .fail (.rootNotFound root)
  | .ok place =>
    if t.isDirectory place then
      match ExcludeList.ofLines root exclude with
      | .error fault => .fail (.invalidConfig excludeSource fault.message)
      | .ok list =>
        let rules : Rules := ⟨cwd, root, list, followLinks⟩
        let found ←
          if isStandardInput root then pure []
          else visit t rules [] ⟨place, []⟩ (t.names place)
        .note [⟨.debug, Walk.target,
          "walk of " ++ root.display ++ " found " ++ toString found.length ++ " files"⟩]
        return found.mergeSort inOrder
    else .fail (.rootNotFound root)

end AssetBake
