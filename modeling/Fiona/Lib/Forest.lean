import Mathlib.Data.List.Basic
import Mathlib.Data.List.Perm.Basic
import Mathlib.Data.List.Nodup
import Mathlib.Data.List.ReduceOption
import Mathlib.Logic.Function.Basic
import Mathlib.Tactic.Common

/-!
# Forests of owned nodes

A heap of nodes in which a node holds handles to others, and each handle owns what it refers to:
when a node is destroyed the handles in it are, and with them their nodes. A handle is a variable
that may be empty, so a node has a list of `Option`s.

`Forest.Holds` says that a list of handles owns a forest: under each handle that is not empty there
is a tree, each node of which shows a label, and the third index lists the nodes in the order in
which they are met. Where that list is free of repetitions every node has one owner
(`Forest.Holds.perm_handles`).

What a program does with handles are three things, and all else is made of them: it takes what one
variable holds out of it (`Forest.Holds.extract`), it puts something into a variable
(`Forest.Holds.put`; with both, two variables change places), and it writes nodes, which leaves
the forests alone in which they do not lie (`Forest.Holds.congr`). Destroying the nodes under a
list of handles (`Forest.destroy`) removes these nodes, each of them once
(`Forest.Holds.destroyed`).
-/

namespace Forest

open List (Perm)
open scoped List

variable {N F L : Type*}

/-- A tree whose nodes have labels, and as many places for subtrees as the node has handles. -/
inductive Tree (L : Type*)
  | node (label : L) (children : List (Option (Tree L)))

variable (slots : F → List (Option N)) (Shows : F → L → Prop)

/-- The handles `hs` own the trees `ts`, whose nodes are `ns`. -/
inductive Holds (h : N → Option F) : List (Option N) → List (Option (Tree L)) → List N → Prop
  | nil : Holds h [] [] []
  | empty {hs ts ns} (rest : Holds h hs ts ns) : Holds h (none :: hs) (none :: ts) ns
  | node {n f l hs us ts ms ns} (found : h n = some f) (shows : Shows f l)
      (below : Holds h (slots f) us ms) (rest : Holds h hs ts ns) :
      Holds h (some n :: hs) (some (.node l us) :: ts) (n :: (ms ++ ns))

variable {slots Shows} {h h' : N → Option F} {hs hs₁ hs₂ : List (Option N)}
  {ts ts₁ ts₂ : List (Option (Tree L))} {ns ns₁ ns₂ ms : List N}

theorem Holds.length_eq (hold : Holds slots Shows h hs ts ns) : hs.length = ts.length := by
  induction hold with
  | nil => rfl
  | empty _ ih => rw [List.length_cons, List.length_cons, ih]
  | node _ _ _ _ _ ih => rw [List.length_cons, List.length_cons, ih]

/-! ### One handle -/

theorem Holds.nothing : Holds slots Shows h [none] [none] [] := .empty .nil

theorem Holds.singleton {n : N} {f : F} {l : L} {us : List (Option (Tree L))} (found : h n = some f)
    (hshows : Shows f l) (below : Holds slots Shows h (slots f) us ms) :
    Holds slots Shows h [some n] [some (.node l us)] (n :: ms) := by
  simpa using Holds.node found hshows below .nil

/-- What a handle that is not empty owns. -/
theorem Holds.some_inv {n : N} {t : Option (Tree L)}
    (hold : Holds slots Shows h [some n] [t] ns) :
    ∃ f l us ms, h n = some f ∧ Shows f l ∧ t = some (.node l us) ∧
      Holds slots Shows h (slots f) us ms ∧ ns = n :: ms := by
  cases hold with
  | node found hshows below rest =>
    cases rest
    exact ⟨_, _, _, _, found, hshows, rfl, below, by rw [List.append_nil]⟩

theorem Holds.none_inv {t : Option (Tree L)} (hold : Holds slots Shows h [none] [t] ns) :
    t = none ∧ ns = [] := by
  cases hold with
  | empty rest =>
    cases rest
    exact ⟨rfl, rfl⟩

/-- A handle is empty where there is no tree. -/
theorem Holds.eq_none {o : Option N} (hold : Holds slots Shows h [o] [none] ns) : o = none := by
  cases hold with
  | empty _ => rfl

/-! ### Lists of handles -/

theorem Holds.append (h₁ : Holds slots Shows h hs₁ ts₁ ns₁) (h₂ : Holds slots Shows h hs₂ ts₂ ns₂) :
    Holds slots Shows h (hs₁ ++ hs₂) (ts₁ ++ ts₂) (ns₁ ++ ns₂) := by
  induction h₁ with
  | nil => exact h₂
  | empty _ ih => exact .empty ih
  | node found hshows below _ _ ih => simpa using Holds.node found hshows below ih

theorem Holds.reverse (hold : Holds slots Shows h hs ts ns) :
    ∃ ns', Holds slots Shows h hs.reverse ts.reverse ns' ∧ ns'.Perm ns := by
  induction hold with
  | nil => exact ⟨[], .nil, .nil⟩
  | empty _ ih =>
    obtain ⟨ns', hold, hperm⟩ := ih
    refine ⟨ns', ?_, hperm⟩
    simpa using hold.append .nothing
  | @node n _ _ _ _ _ ms ns found hshows below _ _ ih =>
    obtain ⟨ns', hold, hperm⟩ := ih
    refine ⟨ns' ++ n :: ms, ?_, ?_⟩
    · simpa using hold.append (.singleton found hshows below)
    · exact List.perm_append_comm.trans (hperm.append_left (n :: ms))

/-- The empty handles own nothing. -/
theorem Holds.reduceOption (hold : Holds slots Shows h hs ts ns) :
    Holds slots Shows h (hs.reduceOption.map some) (ts.reduceOption.map some) ns := by
  induction hold with
  | nil => exact .nil
  | empty _ ih => simpa using ih
  | node found hshows below _ _ ih => simpa using Holds.node found hshows below ih

/-! ### Variables -/

/-- What is set apart of a part is set apart of the whole. -/
theorem perm_past (ks : List N) (hperm : ns.Perm (ms ++ ns₁)) :
    (ks ++ ns).Perm (ms ++ (ks ++ ns₁)) :=
  calc ks ++ ns
    _ ~ ks ++ (ms ++ ns₁) := hperm.append_left ks
    _ ~ ms ++ (ks ++ ns₁) := by
      rw [← List.append_assoc, ← List.append_assoc]
      exact List.perm_append_comm.append_right ns₁

/-- **Taking what a variable holds**: it is one part of the forest, and the variable is empty
after. -/
theorem Holds.extract (x : Nat) (hold : Holds slots Shows h hs ts ns) :
    ∃ ms ns', Holds slots Shows h [hs.getD x none] [ts.getD x none] ms ∧
      Holds slots Shows h (hs.set x none) (ts.set x none) ns' ∧ ns.Perm (ms ++ ns') := by
  induction hold generalizing x with
  | nil => exact ⟨[], [], .nothing, .nil, .nil⟩
  | @empty hs ts ns rest ih =>
    cases x with
    | zero => exact ⟨[], ns, .nothing, .empty rest, .refl _⟩
    | succ x =>
      obtain ⟨ms, ns', h₁, h₂, hperm⟩ := ih x
      exact ⟨ms, ns', h₁, .empty h₂, hperm⟩
  | @node n f l hs us ts ks ns found hshows below rest _ ih =>
    cases x with
    | zero => exact ⟨n :: ks, ns, .singleton found hshows below, .empty rest, .refl _⟩
    | succ x =>
      obtain ⟨ms, ns', h₁, h₂, hperm⟩ := ih x
      exact ⟨ms, n :: (ks ++ ns'), h₁, .node found hshows below h₂, perm_past (n :: ks) hperm⟩

/-- There is no tree where a variable is empty. -/
theorem Holds.set_none {x : Nat} (hold : Holds slots Shows h (hs.set x none) ts ns) :
    ∃ ns', Holds slots Shows h (hs.set x none) (ts.set x none) ns' ∧ ns'.Perm ns := by
  obtain ⟨ms, ns', hone, hrest, hperm⟩ := hold.extract x
  have hempty : (hs.set x none).getD x none = none := by
    rw [List.getD_eq_getElem?_getD, List.getElem?_set_self']
    cases hs[x]? <;> rfl
  rw [hempty] at hone
  rw [hone.none_inv.2] at hperm
  rw [List.set_set] at hrest
  exact ⟨ns', hrest, hperm.symm⟩

/-- **Putting into a variable** that was made empty before. -/
theorem Holds.put {x : Nat} {o : Option N} {t : Option (Tree L)} (hx : x < hs.length)
    (hold : Holds slots Shows h (hs.set x none) (ts.set x none) ns)
    (hone : Holds slots Shows h [o] [t] ms) :
    ∃ ns', Holds slots Shows h (hs.set x o) (ts.set x t) ns' ∧ ns'.Perm (ms ++ ns) := by
  induction x generalizing hs ts ns with
  | zero =>
    cases hs with
    | nil => cases hx
    | cons o' hs =>
      cases ts with
      | nil => cases hold
      | cons t' ts =>
        cases hold with
        | empty rest => exact ⟨ms ++ ns, hone.append rest, .refl _⟩
  | succ x ih =>
    cases hs with
    | nil => cases hx
    | cons o' hs =>
      cases ts with
      | nil => cases hold
      | cons t' ts =>
        cases hold with
        | empty rest =>
          obtain ⟨ns', h₁, hperm⟩ := ih (Nat.lt_of_succ_lt_succ hx) rest
          exact ⟨ns', .empty h₁, hperm⟩
        | @node n f l _ us _ ks ns₁ found hshows below rest =>
          obtain ⟨ns', h₁, hperm⟩ := ih (Nat.lt_of_succ_lt_succ hx) rest
          exact ⟨n :: (ks ++ ns'), .node found hshows below h₁,
            perm_past (n :: ks) hperm⟩

private theorem getD_set_of_ne {α : Type*} {x y : Nat} (hne : x ≠ y) (as : List (Option α))
    (a : Option α) : (as.set x a).getD y none = as.getD y none := by
  rw [List.getD_eq_getElem?_getD, List.getD_eq_getElem?_getD, List.getElem?_set_ne hne]

/-- Two variables change places. -/
theorem Holds.exchange {x y : Nat} (hne : x ≠ y) (hx : x < hs.length) (hy : y < hs.length)
    (hold : Holds slots Shows h hs ts ns) :
    ∃ ns', Holds slots Shows h ((hs.set x (hs.getD y none)).set y (hs.getD x none))
      ((ts.set x (ts.getD y none)).set y (ts.getD x none)) ns' ∧ ns'.Perm ns := by
  obtain ⟨ms₁, ns₁, hone₁, hrest₁, hperm₁⟩ := hold.extract x
  obtain ⟨ms₂, ns₂, hone₂, hrest₂, hperm₂⟩ := hrest₁.extract y
  rw [getD_set_of_ne hne, getD_set_of_ne hne] at hone₂
  obtain ⟨ns₃, hrest₃, hperm₃⟩ := hrest₂.put (by simpa using hy) hone₁
  rw [List.set_comm _ _ hne, List.set_comm _ _ hne] at hrest₃
  obtain ⟨ns₄, hrest₄, hperm₄⟩ := hrest₃.put (by simpa using hx) hone₂
  rw [List.set_comm _ _ hne.symm, List.set_comm _ _ hne.symm] at hrest₄
  refine ⟨ns₄, hrest₄, ?_⟩
  calc ns₄
    _ ~ ms₂ ++ ns₃ := hperm₄
    _ ~ ms₂ ++ (ms₁ ++ ns₂) := hperm₃.append_left ms₂
    _ ~ ms₁ ++ (ms₂ ++ ns₂) := perm_past ms₂ (.refl _)
    _ ~ ms₁ ++ ns₁ := hperm₂.symm.append_left ms₁
    _ ~ ns := hperm₁.symm

/-! ### Nodes -/

theorem Holds.live {n : N} (hold : Holds slots Shows h hs ts ns) (hn : n ∈ ns) :
    ∃ f l, h n = some f ∧ Shows f l := by
  induction hold with
  | nil => cases hn
  | empty _ ih => exact ih hn
  | node found hshows _ _ ih₁ ih₂ =>
    rcases List.mem_cons.mp hn with rfl | hn
    · exact ⟨_, _, found, hshows⟩
    · exact (List.mem_append.mp hn).elim ih₁ ih₂

/-- **The frame rule**: a forest is not changed by what is written elsewhere. -/
theorem Holds.congr (hold : Holds slots Shows h hs ts ns) (hh : ∀ n ∈ ns, h' n = h n) :
    Holds slots Shows h' hs ts ns := by
  induction hold with
  | nil => exact .nil
  | empty _ ih => exact .empty (ih hh)
  | node found hshows _ _ ih₁ ih₂ =>
    refine .node ((hh _ List.mem_cons_self).trans found) hshows
      (ih₁ fun n hn => hh n ?_) (ih₂ fun n hn => hh n ?_)
    · exact List.mem_cons_of_mem _ (List.mem_append_left _ hn)
    · exact List.mem_cons_of_mem _ (List.mem_append_right _ hn)

/-- The forest, whatever its nodes show. -/
def Any (_ : F) (_ : Unit) : Prop := True

theorem Holds.forget (hold : Holds slots Shows h hs ts ns) : ∃ us, Holds slots Any h hs us ns := by
  induction hold with
  | nil => exact ⟨[], .nil⟩
  | empty _ ih =>
    obtain ⟨us, hold⟩ := ih
    exact ⟨none :: us, .empty hold⟩
  | node found _ _ _ ih₁ ih₂ =>
    obtain ⟨us₁, below⟩ := ih₁
    obtain ⟨us₂, rest⟩ := ih₂
    exact ⟨some (.node () us₁) :: us₂, .node found trivial below rest⟩

/-- The handles in a node. -/
def held (slots : F → List (Option N)) (h : N → Option F) (n : N) : List N :=
  (h n).elim [] fun f => (slots f).reduceOption

theorem held_eq {n : N} {f : F} (found : h n = some f) :
    held slots h n = (slots f).reduceOption := by
  rw [held, found, Option.elim_some]

/-- **One owner for each node**: the nodes are the handles, those the forest hangs from and those
that lie in its nodes. -/
theorem Holds.perm_handles (hold : Holds slots Shows h hs ts ns) :
    ns.Perm (hs.reduceOption ++ ns.flatMap (held slots h)) := by
  induction hold with
  | nil => exact .nil
  | empty _ ih => simpa using ih
  | @node n f l hs us ts ms ns found hshows below rest ih₁ ih₂ =>
    rw [List.reduceOption_cons_of_some, List.flatMap_cons, List.flatMap_append, held_eq found,
      List.cons_append]
    refine List.Perm.cons n ?_
    calc ms ++ ns
      _ ~ ((slots f).reduceOption ++ ms.flatMap (held slots h)) ++
          (hs.reduceOption ++ ns.flatMap (held slots h)) := ih₁.append ih₂
      _ ~ hs.reduceOption ++ (((slots f).reduceOption ++ ms.flatMap (held slots h)) ++
          ns.flatMap (held slots h)) := perm_past _ (.refl _)
      _ ~ _ := by rw [List.append_assoc]

/-! ### Destruction -/

section Destroy

variable [DecidableEq N] (slots)

/-- Nodes are destroyed, each with the nodes that the handles in it own, the last handle first. A
node that is not there would be destroyed a second time. -/
def destroy : Nat → (N → Option F) → List N → Option ((N → Option F) × List N)
  | _, h, [] => some (h, [])
  | 0, _, _ :: _ => none
  | fuel + 1, h, n :: ns =>
    (h n).bind fun f =>
      (destroy fuel (Function.update h n none) ((slots f).reverse.reduceOption ++ ns)).map
        (.map id (n :: ·))

variable {slots}

/-- The heap without some of its nodes. -/
def without (h : N → Option F) (ns : List N) : N → Option F := fun n => if n ∈ ns then none else h n

theorem without_nil : without h [] = h := by
  funext n
  simp [without]

theorem without_update (n : N) : without (Function.update h n none) ns = without h (n :: ns) := by
  funext m
  by_cases hm : m = n <;> simp [without, hm]

theorem without_congr (hperm : ns₁.Perm ns₂) : without h ns₁ = without h ns₂ := by
  funext n
  simp only [without, hperm.mem_iff]

/-- **Destruction** removes the nodes of the forest, each of them once. -/
theorem Holds.destroyed {fuel : Nat} {xs : List N} (hold : Holds slots Shows h (xs.map some) ts ns)
    (hnodup : ns.Nodup) (hfuel : ns.length ≤ fuel) :
    ∃ gone, destroy slots fuel h xs = some (without h ns, gone) ∧ gone.Perm ns := by
  induction fuel generalizing h xs ts ns with
  | zero =>
    cases xs with
    | nil =>
      cases hold
      exact ⟨[], by rw [without_nil]; rfl, .nil⟩
    | cons x xs =>
      cases hold
      cases hfuel
  | succ fuel ih =>
    cases xs with
    | nil =>
      cases hold
      exact ⟨[], by rw [without_nil]; rfl, .nil⟩
    | cons n xs =>
      cases hold with
      | @node _ f l _ us ts ms ns found hshows below rest =>
        obtain ⟨hn, hnodup⟩ := List.nodup_cons.mp hnodup
        obtain ⟨ms', below, hperm⟩ := below.reverse
        have hold := below.reduceOption.append rest
        rw [← List.map_append] at hold
        have hperm : (ms' ++ ns).Perm (ms ++ ns) := hperm.append_right ns
        have hout : ∀ m ∈ ms' ++ ns, Function.update h n none m = h m := by
          intro m hm
          refine Function.update_of_ne ?_ ..
          rintro rfl
          exact hn (hperm.subset hm)
        obtain ⟨gone, hgone, hgoneperm⟩ := ih (hold.congr hout) (hperm.nodup_iff.mpr hnodup)
          (by rw [hperm.length_eq]; exact Nat.le_of_succ_le_succ hfuel)
        refine ⟨n :: gone, ?_, (hgoneperm.trans hperm).cons n⟩
        rw [destroy, found, Option.bind_some, hgone, Option.map_some, without_congr hperm]
        rw [Prod.map_apply, id, without_update]

end Destroy

end Forest
