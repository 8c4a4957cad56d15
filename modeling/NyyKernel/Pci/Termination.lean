import NyyKernel.Pci.Enumerate

namespace Nyy
namespace Pci

variable {space : ReadFn Id} {cfg : Config} {t t' : PciTree} {b slot function i : Nat} {P Q : Prop}
  {f : PciTree → Except Fault PciTree} {β : Type}

def Keeps (t t' : PciTree) : Prop := ∀ i b, HasBus t i b → HasBus t' i b

structure Ends (f : PciTree → Except Fault PciTree) (i b : Nat) (P : Prop) : Prop where
  returns : ∀ t, HasBus t i b → P → ∃ t', f t = .ok t' ∧ Keeps t t'
  diverges : ∀ t, HasBus t i b → ¬ P → f t = .error .fuel

theorem Ends.bind {g : PciTree → Except Fault PciTree} (hf : Ends f i b P) (hg : Ends g i b Q)
    : Ends (fun t => f t >>= g) i b (P ∧ Q) := by
  constructor
  . rintro t hbus ⟨hp, hq⟩
    rcases hf.returns t hbus hp with ⟨t1, h1, hkeep1⟩
    rcases hg.returns t1 (hkeep1 i b hbus) hq with ⟨t2, h2, hkeep2⟩
    refine ⟨t2, ?_, fun j c h => hkeep2 j c (hkeep1 j c h)⟩
    rw [h1]
    exact h2
  . intro t hbus hpq
    by_cases hp : P
    . rcases hf.returns t hbus hp with ⟨t1, h1, hkeep1⟩
      rw [h1]
      exact hg.diverges t1 (hkeep1 i b hbus) fun hq => hpq ⟨hp, hq⟩
    . rw [hf.diverges t hbus hp]
      rfl

theorem Ends.foldlM {f : PciTree → β → Except Fault PciTree} {P : β → Prop} (l : List β)
    (hf : ∀ x ∈ l, Ends (fun t => f t x) i b (P x))
    : Ends (fun t => l.foldlM f t) i b (∀ x ∈ l, P x) := by
  induction l with
  | nil => exact ⟨fun t _ _ => ⟨t, rfl, fun _ _ h => h⟩, fun t _ h => absurd (by simp) h⟩
  | cons x l ih =>
    rw [List.forall_mem_cons] at hf ⊢
    exact hf.1.bind (ih hf.2)

theorem Extends.ends {ids : List Nat} {keys : List (Nat × Nat × Nat)} (h : Extends space f i b ids keys)
    (hp : P)
    : Ends f i b P := by
  refine ⟨fun t hbus _ => ?_, fun t _ hnot => absurd hp hnot⟩
  rcases h t hbus with ⟨t', new, ht', hgrow⟩
  exact ⟨t', ht', fun j c => hgrow.hasBus⟩

theorem checkFunction_ends {scan : PciTree → Nat → Except Fault PciTree}
    (hscan : ∀ j, Ends (fun t => scan t j) j (secondary space b slot function) P)
    : Ends (fun t => checkFunction space cfg scan t i slot function) i b
        (Bridge space b slot function → P) := by
  by_cases hbridge : Bridge space b slot function
  . have hhost : ¬ HostBridge space b slot function := fun h => h.not_bridge hbridge
    constructor
    . intro t hbus hp
      rcases bridgeNode_eq_ok space cfg t b slot function with ⟨t1, _, h1, hgrow1, hbus1⟩
      rcases (hscan _).returns t1 hbus1 (hp hbridge) with ⟨t2, h2, hkeep⟩
      have hkept : Keeps t t2 := fun j c h => hkeep j c (hgrow1.hasBus h)
      rcases deviceNode_extends space cfg i b slot function t2 (hkept i b hbus) with
        ⟨t3, _, h3, hgrow3⟩
      refine ⟨t3, ?_, fun j c h => hgrow3.hasBus (hkept j c h)⟩
      simp only [checkFunction_eq hbus, if_neg hhost, if_pos hbridge, h1, Except.ok_bind, h2]
      exact h3
    . intro t hbus hp
      rcases bridgeNode_eq_ok space cfg t b slot function with ⟨t1, _, h1, _, hbus1⟩
      have h2 := (hscan _).diverges t1 hbus1 fun h => hp fun _ => h
      simp only [checkFunction_eq hbus, if_neg hhost, if_pos hbridge, h1, Except.ok_bind, h2]
      rfl
  . have hadds : Extends space (fun t => checkFunction space cfg scan t i slot function) i b
        (idsOf space (fun _ => []) b (slot, function)) (keysOf space (fun _ => []) b (slot, function)) :=
      checkFunction_extends fun h => absurd h hbridge
    exact hadds.ends fun h => absurd h hbridge

theorem shallow_succ {n : Nat}
    : Shallow (children space) (n + 1) b ↔ ∀ slot ∈ List.range 32,
        ∀ function ∈ functionsOf space b slot, Bridge space b slot function →
          Shallow (children space) n (secondary space b slot function) := by
  constructor
  . intro h slot hslot function hmem hbridge
    have hpresent := mem_functionsOf.mp ⟨List.mem_range.mp hslot, hmem⟩
    exact h _ (mem_children.mpr ⟨slot, function, hpresent, hbridge, rfl⟩)
  . intro h c hc
    rcases mem_children.mp hc with ⟨slot, function, hpresent, hbridge, rfl⟩
    have hmem := mem_functionsOf.mpr hpresent
    exact h slot (List.mem_range.mpr hmem.1) function hmem.2 hbridge

theorem checkBus_ends (space : ReadFn Id) (cfg : Config) (n i b : Nat)
    : Ends (fun t => checkBus space cfg n t i) i b (Shallow (children space) n b) := by
  induction n generalizing i b with
  | zero => exact ⟨fun _ _ h => h.elim, fun _ _ _ => rfl⟩
  | succ n ih =>
    rw [shallow_succ]
    refine Ends.foldlM _ fun slot _ => ?_
    have hfold := Ends.foldlM (functionsOf space b slot) fun function _ =>
      @checkFunction_ends space cfg b slot function i _ _ fun j =>
        ih j (secondary space b slot function)
    constructor
    . intro t hbus
      rw [checkSlot_eq hbus]
      exact hfold.returns t hbus
    . intro t hbus
      rw [checkSlot_eq hbus]
      exact hfold.diverges t hbus

def roots (space : ReadFn Id) : List Nat :=
  if MultiFunction space 0 0 then
    (List.range 8).takeWhile fun function => vendor space 0 0 function ≠ 0xFFFF
  else
    [0]

theorem pciInit_eq (fuel : Nat) (t : PciTree)
    : pciInit space cfg fuel t =
        (roots space).foldlM (fun t root => rootBus space cfg fuel t root root) t := by
  have hroots : ∀ l t, rootBuses space cfg fuel l t =
      (l.takeWhile fun function => vendor space 0 0 function ≠ 0xFFFF).foldlM
        (fun t root => rootBus space cfg fuel t root root) t := by
    intro l
    induction l with
    | nil => exact fun _ => rfl
    | cons function l ih =>
      intro t
      unfold rootBuses
      rw [vendorId_eq]
      split
      . next hnone => simp [hnone]
      . next hsome =>
        rw [List.takeWhile_cons_of_pos (by simpa using hsome), List.foldlM_cons]
        simp only [ih]
  unfold pciInit roots
  simp only [← headerType_iff, ite_not]
  split
  . simp
  . exact hroots _ t

theorem rootBus_ends (fuel root : Nat) (t : PciTree)
    : (Shallow (children space) fuel root → ∃ t', rootBus space cfg fuel t root root = .ok t') ∧
        (¬ Shallow (children space) fuel root → rootBus space cfg fuel t root root = .error .fuel) := by
  have hbus : HasBus ((t.pciCreateBus 0).2.push (rootNode t root root)) t.nodes.length root :=
    ⟨_, List.getElem?_concat_length, rfl, rfl⟩
  have hends := checkBus_ends space cfg fuel t.nodes.length root
  rw [rootBus_eq]
  refine ⟨fun h => ?_, hends.diverges _ hbus⟩
  rcases hends.returns _ hbus h with ⟨t', ht', _⟩
  exact ⟨t', ht'⟩

theorem pciInit_ends (fuel : Nat) (t : PciTree)
    : ((∀ root ∈ roots space, Shallow (children space) fuel root) →
          ∃ t', pciInit space cfg fuel t = .ok t') ∧
        ((¬ ∀ root ∈ roots space, Shallow (children space) fuel root) →
          pciInit space cfg fuel t = .error .fuel) := by
  rw [pciInit_eq]
  induction roots space generalizing t with
  | nil => exact ⟨fun _ => ⟨t, rfl⟩, fun h => absurd (by simp) h⟩
  | cons root l ih =>
    rw [List.forall_mem_cons, List.foldlM_cons]
    by_cases hroot : Shallow (children space) fuel root
    . rcases (@rootBus_ends space cfg fuel root t).1 hroot with ⟨t', ht'⟩
      rw [ht', Except.ok_bind]
      simpa [hroot] using ih t'
    . rw [(rootBus_ends fuel root t).2 hroot]
      exact ⟨fun h => absurd h.1 hroot, fun _ => rfl⟩

theorem root_lt {root : Nat} (h : root ∈ roots space) : root < 256 := by
  unfold roots at h
  split at h
  . have := List.mem_range.mp ((List.takeWhile_sublist _).mem h)
    omega
  . rw [List.mem_singleton] at h
    omega

theorem shallow_of_loopFree (h : LoopFree (children space) b) (hb : b < 256)
    : Shallow (children space) 256 b := by
  refine h.shallow (Finset.range 256) ?_ (by simp)
  intro c hc
  rw [Finset.mem_range]
  cases hc with
  | refl => exact hb
  | step _ hmem =>
    rcases mem_children.mp hmem with ⟨slot, function, _, _, rfl⟩
    exact secondary_lt

/--
`pci_init` returns if and only if the bridges form no loop. Then 256 buses on a path are enough,
otherwise no depth is.
-/
theorem pci_init_terminates_iff (space : ReadFn Id) (cfg : Config) (t : PciTree)
    : ((∃ fuel t', pciInit space cfg fuel t = .ok t') ↔
          ∀ root ∈ roots space, LoopFree (children space) root) ∧
        ((∀ root ∈ roots space, LoopFree (children space) root) →
          ∀ fuel ≥ 256, ∃ t', pciInit space cfg fuel t = .ok t') ∧
        ((¬ ∀ root ∈ roots space, LoopFree (children space) root) →
          ∀ fuel, pciInit space cfg fuel t = .error .fuel) := by
  have henough : (∀ root ∈ roots space, LoopFree (children space) root) →
      ∀ fuel ≥ 256, ∃ t', pciInit space cfg fuel t = .ok t' := by
    intro hfree fuel hfuel
    refine (pciInit_ends fuel t).1 fun root hroot => ?_
    exact (shallow_of_loopFree (hfree root hroot) (root_lt hroot)).mono hfuel
  have hnever : (¬ ∀ root ∈ roots space, LoopFree (children space) root) →
      ∀ fuel, pciInit space cfg fuel t = .error .fuel := by
    intro hloop fuel
    exact (pciInit_ends fuel t).2 fun h => hloop fun root hroot => (h root hroot).loopFree
  refine ⟨⟨?_, fun hfree => ⟨256, henough hfree 256 (Nat.le_refl _)⟩⟩, henough, hnever⟩
  rintro ⟨fuel, t', hok⟩
  by_contra hloop
  rw [hnever hloop fuel] at hok
  cases hok

def unconfigured : ReadFn Id := fun _ b slot function offset =>
  if b = 0 ∧ slot = 0 ∧ function = 0 then
    0
  else if b = 0 ∧ slot = 1 ∧ function = 0 then
    if offset = 0x8 then 0x06040000 else 0
  else
    0xFFFFFFFF

theorem pci_init_diverges
    : 0 ∈ children unconfigured 0 ∧
      ∀ fuel, pciInit unconfigured ⟨false⟩ fuel ⟨[], 0⟩ = .error .fuel := by
  have hchild : 0 ∈ children unconfigured 0 :=
    mem_children.mpr ⟨1, 0, by unfold Present; decide, by decide, by decide⟩
  refine ⟨hchild, ?_⟩
  intro fuel
  refine (pciInit_ends fuel _).2 fun h => ?_
  exact (h 0 (by decide)).loopFree 0 0 .refl hchild .refl

end Pci
end Nyy
