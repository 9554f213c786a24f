/-!
# Unix paths

A path text is read as its components: at most one anchor, the root or a leading
`.`, and then the steps, with empty and further `.` segments dropped. Two spellings
are the same path when they have the same components. The directory a path denotes
is the list of names below the root, found from the working directory step by step,
with `..` read as one name less; links are not followed.
-/
namespace UnixPath

abbrev Name := List Char

inductive Anchor where
  | root
  | current
  | bare
  deriving DecidableEq, Repr

inductive Step where
  | parent
  | normal (name : Name)
  deriving DecidableEq, Repr

structure Path where
  anchor : Anchor
  steps : List Step
  deriving DecidableEq, Repr

def Path.empty : Path := ⟨.bare, []⟩

/-! ## Reading a text -/

def stepOfSegment (segment : List Char) : Option Step :=
  if segment = [] ∨ segment = ['.'] then none
  else if segment = ['.', '.'] then some .parent
  else some (.normal segment)

def stepsOf (text : List Char) : List Step :=
  (text.splitOn '/').filterMap stepOfSegment

def anchorOf : List Char → Anchor
  | '/' :: _ => .root
  | ['.'] => .current
  | '.' :: '/' :: _ => .current
  | _ => .bare

def ofText (text : List Char) : Path := ⟨anchorOf text, stepsOf text⟩

def Path.isAbsolute (p : Path) : Bool := p.anchor == .root

/-! ## Joining and taking apart -/

/-- An absolute path replaces the one it is joined to. -/
def Path.join (p q : Path) : Path :=
  if q.isAbsolute then q
  else if p = .empty then q
  else ⟨p.anchor, p.steps ++ q.steps⟩

def Path.child (p : Path) (name : Name) : Path := p.join ⟨.bare, [.normal name]⟩

def Path.parent? (p : Path) : Option Path :=
  match p.steps, p.anchor with
  | [], .current => some .empty
  | [], _ => none
  | steps, anchor => some ⟨anchor, steps.dropLast⟩

def Path.fileName? (p : Path) : Option Name :=
  match p.steps.getLast? with
  | some (.normal name) => some name
  | _ => none

def Path.withFileName (p : Path) (name : Name) : Path :=
  match p.fileName?, p.parent? with
  | some _, some parent => parent.child name
  | _, _ => p.child name

def Step.text : Step → List Char
  | .parent => ['.', '.']
  | .normal name => name

/-- The shortest spelling. -/
def Path.display (p : Path) : String :=
  let below := ['/'].intercalate (p.steps.map Step.text)
  match p.anchor, p.steps with
  | .root, _ => String.ofList ('/' :: below)
  | .current, [] => "."
  | .current, _ => String.ofList ('.' :: '/' :: below)
  | .bare, _ => String.ofList below

/-! ## What a path denotes -/

def walk (dir : List Name) : List Step → List Name
  | [] => dir
  | .parent :: rest => walk dir.dropLast rest
  | .normal name :: rest => walk (dir ++ [name]) rest

def Path.denote (cwd : List Name) (p : Path) : List Name :=
  walk (if p.isAbsolute then [] else cwd) p.steps

/-- The names of the steps that go down. -/
def Path.names (p : Path) : List Name :=
  p.steps.filterMap fun
    | .parent => none
    | .normal name => some name

theorem walk_append (dir : List Name) (xs ys : List Step) :
    walk dir (xs ++ ys) = walk (walk dir xs) ys := by
  induction xs generalizing dir with
  | nil => rfl
  | cons x xs ih =>
      cases x with
      | parent => exact ih dir.dropLast
      | normal name => exact ih (dir ++ [name])

/-- Without `..` the walk only goes down. -/
theorem walk_of_no_parent {steps : List Step} (h : Step.parent ∉ steps) (dir : List Name) :
    walk dir steps = dir ++ (Path.mk .bare steps).names := by
  induction steps generalizing dir with
  | nil => exact (List.append_nil dir).symm
  | cons x xs ih =>
      have hxs : Step.parent ∉ xs := fun hmem => h (List.mem_cons_of_mem x hmem)
      cases x with
      | parent => exact absurd List.mem_cons_self h
      | normal name =>
          have htail := ih hxs (dir ++ [name])
          rw [List.append_assoc] at htail
          exact htail

theorem denote_of_no_parent {p : Path} (h : Step.parent ∉ p.steps) (cwd : List Name) :
    p.denote cwd = (if p.isAbsolute then [] else cwd) ++ p.names :=
  walk_of_no_parent h _

theorem denote_join (cwd : List Name) (p q : Path) (hq : q.isAbsolute = false) :
    (p.join q).denote cwd = walk (p.denote cwd) q.steps := by
  unfold Path.join
  simp only [hq, Bool.false_eq_true, if_false]
  by_cases hp : p = .empty
  · subst hp
    simp only [if_true, Path.denote, hq, Bool.false_eq_true, if_false]
    rfl
  · rw [if_neg hp]
    exact walk_append _ p.steps q.steps

theorem join_of_isAbsolute (p : Path) {q : Path} (hq : q.isAbsolute = true) :
    p.join q = q := by
  rw [Path.join, if_pos hq]

/-- A relative path without `..` is joined by appending its names. -/
theorem denote_join_names (cwd : List Name) (p : Path) {q : Path}
    (hq : q.isAbsolute = false) (h : Step.parent ∉ q.steps) :
    (p.join q).denote cwd = p.denote cwd ++ q.names := by
  rw [denote_join cwd p q hq]
  exact walk_of_no_parent h _

/-- A path that ends in a name denotes that name in its parent. One that does not
denotes a directory that its parent lies in. -/
theorem denote_parent (cwd : List Name) {p parent : Path} (h : p.parent? = some parent) :
    (∃ name, p.fileName? = some name ∧ p.denote cwd = parent.denote cwd ++ [name]) ∨
      p.fileName? = none ∧ p.denote cwd <+: parent.denote cwd := by
  obtain ⟨anchor, steps⟩ := p
  cases steps.eq_nil_or_concat with
  | inl hnil =>
      subst hnil
      right
      cases anchor with
      | root => cases h
      | bare => cases h
      | current =>
          rw [← Option.some.inj h]
          exact ⟨rfl, List.prefix_refl cwd⟩
  | inr hconcat =>
      obtain ⟨front, last, hsteps⟩ := hconcat
      rw [List.concat_eq_append] at hsteps
      subst hsteps
      have hparent : parent = ⟨anchor, front⟩ := by
        cases front with
        | nil => exact (Option.some.inj h).symm
        | cons x xs =>
            rw [← Option.some.inj h]
            exact congrArg (Path.mk anchor) List.dropLast_concat
      have hdenote : (Path.mk anchor (front ++ [last])).denote cwd =
          walk (parent.denote cwd) [last] := by
        rw [hparent]
        exact walk_append _ front [last]
      rw [hdenote]
      cases last with
      | parent =>
          right
          constructor
          · simp [Path.fileName?]
          · exact List.dropLast_prefix _
      | normal name =>
          left
          refine ⟨name, ?_, rfl⟩
          simp [Path.fileName?]

theorem denote_child (cwd : List Name) (p : Path) (name : Name) :
    (p.child name).denote cwd = p.denote cwd ++ [name] :=
  denote_join cwd p ⟨.bare, [.normal name]⟩ rfl

end UnixPath
