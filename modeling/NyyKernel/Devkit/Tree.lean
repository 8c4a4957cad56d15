import NyyKernel.Lib.Fault
import NyyKernel.Lib.Forest
import NyyKernel.Lib.Run

/-!
This module contains the device tree of `kernel/devkit/node.c`.
-/

namespace Nyy

structure DevNode (ν : Type) where
  refcnt : Nat
  name : String
  parent : Option ν
  children : List ν
  childcount : Nat

-- the nodes that were initialised
abbrev DevTree (ν : Type) := ν → Option (DevNode ν)

-- `named` is whether `kmalloc` has memory for the name
inductive DevOp (ν : Type) where
  | init (obj : ν) (name : String) (named : Bool)
  | attach (node parent : Option ν)

namespace DevTree

variable {ν : Type}

def parent (s : DevTree ν) (node : ν) : Option ν := (s node).bind DevNode.parent

def children (s : DevTree ν) (node : ν) : List ν := ((s node).map DevNode.children).getD []

section

variable [DecidableEq ν]

def devNodeInit (cfg : Config) (s : DevTree ν) (obj : ν) (name : String) (named : Bool)
    : Except Fault (DevTree ν) := do
  check cfg named
  if named then
    return Function.update s obj (some ⟨1, name, none, [], 0⟩)
  else
    .error .undefined

def modify (s : DevTree ν) (node : ν) (f : DevNode ν → DevNode ν) : DevTree ν :=
  Function.update s node ((s node).map f)

def objRetain (s : DevTree ν) (node : ν) : DevTree ν :=
  s.modify node fun x => { x with refcnt := x.refcnt + 1 }

def devNodeAttach (cfg : Config) (s : DevTree ν) (node parent : Option ν)
    : Except Fault (DevTree ν) := do
  check cfg (node.isSome && parent.isSome)
  match node, parent with
  | some node, some parent =>
    if (s node).isNone || (s parent).isNone then
      .error .undefined
    else
      check cfg (s.parent node).isNone
      let s := (s.objRetain node).objRetain parent
      let s := s.modify parent fun x =>
        { x with children := x.children ++ [node], childcount := x.childcount + 1 }
      return s.modify node fun x => { x with parent := some parent }
  | _, _ => .error .undefined

-- whether `TAILQ_NEXT` is not null; in a node without parent nothing has set it
def hasNext (s : DevTree ν) (unset : ν → Bool) (node : ν) : Bool :=
  match s.parent node with
  | some parent => (s.children parent).getLast? != some node
  | none => unset node

-- the loop over the ancestors
def indent (s : DevTree ν) (unset : ν → Bool) (i : Nat) : Nat → Option ν → Except Fault (List String)
  | 0, _ => return []
  | k + 1, ancestor =>
    match ancestor.bind s with
    | none => .error .undefined
    | some x => do
      let rest ← indent s unset (i + 1) k x.parent
      if x.parent.any (s.hasNext unset) then
        return "│   " :: rest
      else if i = 0 then
        return rest
      else
        return "    " :: rest

-- the lines, each with the node that it is for
def devPrintTreeN (s : DevTree ν) (unset : ν → Bool)
    : Nat → ν → Nat → Except Fault (List (ν × List String))
  | 0, _, _ => .error .fuel
  | n + 1, node, depth =>
    match s node with
    | none => .error .undefined
    | some x => do
      let branches ← s.indent unset 0 depth x.parent
      let branch := if s.hasNext unset node then "├── " else "└── "
      let line := if depth > 0 then branches ++ [branch, x.name ++ "\n"] else [x.name ++ "\n"]
      let below ← x.children.mapM fun elm => devPrintTreeN s unset n elm (depth + 1)
      return (node, line) :: below.flatten

def devPrintTree (s : DevTree ν) (unset : ν → Bool) (fuel : Nat) (node : ν)
    : Except Fault (List (ν × List String)) :=
  s.devPrintTreeN unset fuel node 0

def Step (cfg : Config) (s : DevTree ν) (op : DevOp ν) (s' : DevTree ν) : Prop :=
  match op with
  | .init obj name named => s.devNodeInit cfg obj name named = .ok s'
  | .attach node parent => s.devNodeAttach cfg node parent = .ok s'

end

-- a node is initialised once, and attached once to a node that is not below it
def Grows (s : DevTree ν) : DevOp ν → Prop
  | .init obj _ _ => s obj = none
  | .attach node parent => ∀ n ∈ node, s.parent n = none ∧ ∀ p ∈ parent, ¬ Descends s.children n p

structure Inv (s : DevTree ν) : Prop where
  nodup : ∀ p, (s.children p).Nodup
  mem : ∀ p c, c ∈ s.children p ↔ s.parent c = some p
  counts : ∀ node x, s node = some x → x.childcount = x.children.length ∧
    x.refcnt = 1 + x.parent.toList.length + x.childcount

variable {cfg : Config} {s s' : DevTree ν} {a p c node : ν} {x : DevNode ν}

section

variable [DecidableEq ν]

theorem init_spec {name : String} {named : Bool} (h : s.devNodeInit cfg a name named = .ok s')
    : s' = Function.update s a (some ⟨1, name, none, [], 0⟩) := by
  obtain ⟨_, _, h⟩ := Except.bind_eq_ok h
  cases named with
  | true => exact (Except.ok.inj h).symm
  | false => cases h

theorem modify_apply (s : DevTree ν) (a : ν) (f : DevNode ν → DevNode ν) (z : ν)
    : s.modify a f z = (s z).map fun x => if z = a then f x else x := by
  unfold modify
  by_cases hz : z = a
  . subst hz
    simp
  . simp [hz]

structure Attached (s s' : DevTree ν) (node p : ν) : Prop where
  isSome_node : (s node).isSome
  isSome_parent : (s p).isSome
  apply : ∀ a, s' a = (s a).map fun x =>
    { refcnt := x.refcnt + (if a = node then 1 else 0) + (if a = p then 1 else 0)
      name := x.name
      parent := if a = node then some p else x.parent
      children := x.children ++ (if a = p then [node] else [])
      childcount := x.childcount + (if a = p then 1 else 0) }

theorem attach_cases {n q : Option ν} (h : s.devNodeAttach cfg n q = .ok s')
    : ∃ node p, n = some node ∧ q = some p ∧ Attached s s' node p := by
  obtain ⟨_, _, h⟩ := Except.bind_eq_ok h
  cases n with
  | none => cases h
  | some node =>
    cases q with
    | none => cases h
    | some p =>
      dsimp only at h
      split at h
      . cases h
      . next hsome =>
        obtain ⟨_, _, h⟩ := Except.bind_eq_ok h
        cases h
        simp only [Bool.or_eq_true, not_or, Option.isNone_iff_eq_none, ← Option.isSome_iff_ne_none] at hsome
        refine ⟨node, p, rfl, rfl, hsome.1, hsome.2, ?_⟩
        intro a
        simp only [objRetain, modify_apply, Option.map_map]
        congr 1
        funext x
        dsimp only [Function.comp]
        split_ifs <;> simp

namespace Attached

variable (h : Attached s s' node p)

include h

theorem children_eq (a : ν) : s'.children a = s.children a ++ if a = p then [node] else [] := by
  unfold children
  rw [h.apply a]
  cases ha : s a with
  | some x => simp
  | none =>
    have : a ≠ p := by
      rintro rfl
      simpa [ha] using h.isSome_parent
    simp [this]

theorem parent_eq (a : ν) : s'.parent a = if a = node then some p else s.parent a := by
  unfold DevTree.parent
  rw [h.apply a]
  cases ha : s a with
  | some x => simp
  | none =>
    have : a ≠ node := by
      rintro rfl
      simpa [ha] using h.isSome_node
    simp [this]

theorem inv (hinv : Inv s) (hroot : s.parent node = none) : Inv s' := by
  have hnot : ∀ a, node ∉ s.children a := by simp [hinv.mem, hroot]
  constructor
  . intro a
    rw [h.children_eq]
    split
    . exact List.nodup_append_comm.mp (List.nodup_cons.mpr ⟨hnot a, hinv.nodup a⟩)
    . simpa using hinv.nodup a
  . intro a c
    rw [h.children_eq, h.parent_eq, List.mem_append, hinv.mem]
    by_cases hc : c = node
    . subst hc
      by_cases ha : a = p <;> simp [hroot, ha, @eq_comm _ p]
    . by_cases ha : a = p <;> simp [hc, ha]
  . intro a y hy
    rw [h.apply a] at hy
    obtain ⟨x, hx, rfl⟩ := Option.map_eq_some_iff.mp hy
    obtain ⟨hcount, href⟩ := hinv.counts a x hx
    have hparent : a = node → x.parent = none := by
      rintro rfl
      simpa [DevTree.parent, hx] using hroot
    refine ⟨by by_cases ha : a = p <;> simp [ha, hcount], ?_⟩
    dsimp only
    rw [href]
    by_cases ha : a = node
    . rw [hparent ha, if_pos ha, if_pos ha]
      simp
      omega
    . rw [if_neg ha, if_neg ha]
      omega

theorem ranked (hinv : Inv s) (hroot : s.parent node = none) (hrank : Ranked s.children)
    (hbelow : ¬ Descends s.children node p)
    : Ranked s'.children := by
  refine hrank.link ?_ ?_ hbelow ?_
  . intro a b c ha hb
    rw [hinv.mem] at ha hb
    exact Option.some.inj (ha.symm.trans hb)
  . simp [hinv.mem, hroot]
  . intro a c hc
    rw [h.children_eq] at hc
    by_cases ha : a = p <;> simp_all

end Attached

theorem inv_init {name : String} {named : Bool} (h : s.devNodeInit cfg a name named = .ok s')
    (hnew : s a = none) (hinv : Inv s)
    : Inv s' ∧ s'.children = s.children := by
  obtain rfl := init_spec h
  have hchildren : DevTree.children (Function.update s a (some ⟨1, name, none, [], 0⟩)) = s.children := by
    funext b
    by_cases hb : b = a <;> simp [children, hb, hnew]
  refine ⟨⟨?_, ?_, ?_⟩, hchildren⟩
  . rw [hchildren]
    exact hinv.nodup
  . intro b c
    rw [hchildren, hinv.mem]
    by_cases hc : c = a <;> simp [parent, hc, hnew]
  . intro b y hy
    by_cases hb : b = a
    . subst hb
      rw [Function.update_self] at hy
      cases hy
      exact ⟨rfl, rfl⟩
    . rw [Function.update_of_ne hb] at hy
      exact hinv.counts b y hy

theorem inv_step {op : DevOp ν} (hinv : Inv s ∧ Ranked s.children) (h : Guarded Grows (Step cfg) s op s')
    : Inv s' ∧ Ranked s'.children := by
  obtain ⟨hgrows, h⟩ := h
  cases op with
  | init a name named =>
    obtain ⟨hinv', hchildren⟩ := inv_init h hgrows hinv.1
    rw [hchildren]
    exact ⟨hinv', hinv.2⟩
  | attach n q =>
    obtain ⟨node, p, rfl, rfl, hatt⟩ := attach_cases h
    obtain ⟨hroot, hbelow⟩ := hgrows node rfl
    exact ⟨hatt.inv hinv.1 hroot, hatt.ranked hinv.1 hroot hinv.2 (hbelow p rfl)⟩

-- the loop over the ancestors can go up this often
def Ups (s : DevTree ν) : Nat → Option ν → Prop
  | 0, _ => True
  | k + 1, ancestor => ∃ x, ancestor.bind s = some x ∧ Ups s k x.parent

theorem indent_ok (unset : ν → Bool) (i : Nat) {k : Nat} {ancestor : Option ν} (h : Ups s k ancestor)
    : ∃ l, s.indent unset i k ancestor = .ok l := by
  induction k generalizing i ancestor with
  | zero => exact ⟨[], rfl⟩
  | succ k ih =>
    obtain ⟨x, hx, hups⟩ := h
    obtain ⟨l, hl⟩ := ih (i + 1) hups
    simp only [indent, hx, hl, Except.ok_bind]
    split_ifs <;> exact ⟨_, rfl⟩

theorem print_spec (hinv : Inv s) (unset : ν → Bool) {n d : Nat} (hx : s node = some x)
    (hups : Ups s d x.parent)
    : (Shallow s.children n node → ∃ l, s.devPrintTreeN unset n node d = .ok l ∧
          l.map Prod.fst = preorder s.children n node) ∧
        (¬ Shallow s.children n node → s.devPrintTreeN unset n node d = .error .fuel) := by
  induction n generalizing node x d with
  | zero => exact ⟨False.elim, fun _ => rfl⟩
  | succ n ih =>
    obtain ⟨branches, hbranches⟩ := indent_ok unset 0 hups
    have hchildren : s.children node = x.children := by simp [children, hx]
    have hchild : ∀ c ∈ x.children, ∃ y, s c = some y ∧ Ups s (d + 1) y.parent := by
      intro c hc
      rw [← hchildren, hinv.mem] at hc
      obtain ⟨y, hy, hparent⟩ := Option.bind_eq_some_iff.mp hc
      refine ⟨y, hy, x, ?_, hups⟩
      rw [hparent]
      exact hx
    have hbelow := Except.mapM_flatten (l := x.children) (e := Fault.fuel) (g := Prod.fst)
      (f := fun c => s.devPrintTreeN unset n c (d + 1)) (q := preorder s.children n)
      (P := Shallow s.children n)
      (fun c hc => by
        obtain ⟨y, hy, hup⟩ := hchild c hc
        exact (ih hy hup).1)
      (fun c hc => by
        obtain ⟨y, hy, hup⟩ := hchild c hc
        exact (ih hy hup).2)
    simp only [devPrintTreeN, hx, hbranches, Except.ok_bind, Shallow, preorder, hchildren]
    refine ⟨?_, ?_⟩
    . intro h
      obtain ⟨l, hl, hmap⟩ := hbelow.1 h
      rw [hl]
      exact ⟨_, rfl, by simp [hmap]⟩
    . intro h
      rw [hbelow.2 h]
      rfl

/--
As long as no node is attached below itself, `dev_print_tree` returns and has one line for every node
below, and all counts are right. Once one is, printing it never ends.
-/
theorem device_tree_printed (h : Reach (fun s => s = fun _ => none) (Guarded Grows (Step cfg)) s)
    : (∀ node x, s node = some x → x.childcount = x.children.length ∧
          x.refcnt = 1 + x.parent.toList.length + x.childcount) ∧
        (∀ root, (s root).isSome → ∀ unset, ∃ fuel l, s.devPrintTree unset fuel root = .ok l ∧
          (l.map Prod.fst).Nodup ∧ ∀ a, a ∈ l.map Prod.fst ↔ Descends s.children root a) ∧
        ∀ node p s', s.parent node = none → Descends s.children node p →
          s.devNodeAttach cfg (some node) (some p) = .ok s' →
          ∀ unset fuel, s'.devPrintTree unset fuel node = .error .fuel := by
  have hstart : ∀ s : DevTree ν, s = (fun _ => none) → Inv s ∧ Ranked s.children := by
    rintro s rfl
    refine ⟨⟨?_, ?_, ?_⟩, fun _ => 0, 1, ?_, ?_⟩ <;> simp [children, parent]
  obtain ⟨hinv, rank, bound, hbound, hlt⟩ := h.invariant hstart fun _ _ _ => inv_step
  refine ⟨hinv.counts, ?_, ?_⟩
  . intro root hroot unset
    obtain ⟨x, hx⟩ := Option.isSome_iff_exists.mp hroot
    have htree : IsTree s.children rank bound root := by
      refine ⟨fun b c _ => hlt b c, fun b _ => hbound b, fun b _ => hinv.nodup b, ?_⟩
      intro a b c _ _ ha hb
      rw [hinv.mem] at ha hb
      exact Option.some.inj (ha.symm.trans hb)
    have hshallow : Shallow s.children bound root := .of_rank hbound hlt (by omega)
    obtain ⟨l, hl, hmap⟩ := (print_spec hinv unset (d := 0) hx trivial).1 hshallow
    refine ⟨bound, l, hl, ?_, ?_⟩
    . rw [hmap]
      exact htree.nodup_preorder .refl (by omega)
    . intro a
      rw [hmap]
      exact htree.mem_preorder .refl (by omega)
  . intro node p s' hroot hbelow hok unset fuel
    obtain ⟨_, _, hn, hp, hatt⟩ := attach_cases hok
    cases hn
    cases hp
    have hdown : ∀ {a}, Descends s.children node a → Descends s'.children node a := by
      intro a ha
      induction ha with
      | refl => exact .refl
      | step _ hmem ih =>
        refine ih.step ?_
        rw [hatt.children_eq]
        exact List.mem_append_left _ hmem
    have hmem : node ∈ s'.children p := by simp [hatt.children_eq]
    obtain ⟨x, hx⟩ := Option.isSome_iff_exists.mp hatt.isSome_node
    have hnode := hatt.apply node
    rw [hx, Option.map_some] at hnode
    refine (print_spec (hatt.inv hinv hroot) unset (d := 0) hnode trivial).2 ?_
    intro hshallow
    exact hshallow.loopFree p node (hdown hbelow) hmem (hdown hbelow)

theorem device_tree_printed_platform : ∃ s : DevTree Bool, s.parent true = some false ∧
    ∀ unset, ∃ fuel l, s.devPrintTree unset fuel false = .ok l ∧ (l.map Prod.fst).Nodup ∧
      ∀ a, a ∈ l.map Prod.fst ↔ Descends s.children false a := by
  let s1 : DevTree Bool := Function.update (fun _ => none) false (some ⟨1, "Root", none, [], 0⟩)
  let s2 : DevTree Bool := Function.update s1 true (some ⟨1, "AMD64Platform", none, [], 0⟩)
  have h1 : Guarded Grows (Step ⟨false⟩) (fun _ => none) (.init false "Root" true) s1 := ⟨rfl, rfl⟩
  have h2 : Guarded Grows (Step ⟨false⟩) s1 (.init true "AMD64Platform" true) s2 := ⟨rfl, rfl⟩
  have hleaf : ∀ a, Descends s2.children true a → a = true := by
    intro a ha
    induction ha with
    | refl => rfl
    | step _ hmem ih =>
      subst ih
      cases hmem
  have h3 : ∃ s3, Guarded Grows (Step ⟨false⟩) s2 (.attach (some true) (some false)) s3 ∧
      s3.parent true = some false ∧ (s3 false).isSome := by
    refine ⟨_, ⟨?_, rfl⟩, rfl, rfl⟩
    intro n hn
    cases hn
    refine ⟨rfl, ?_⟩
    intro p hp hdown
    cases hp
    exact absurd (hleaf false hdown) (by decide)
  obtain ⟨s3, h3, hparent, hroot⟩ := h3
  have hstart : Reach (fun s : DevTree Bool => s = fun _ => none) (Guarded Grows (Step ⟨false⟩)) _ :=
    .start rfl
  exact ⟨s3, hparent, (device_tree_printed (((hstart.next h1).next h2).next h3)).2.1 false hroot⟩

end

end DevTree
end Nyy
