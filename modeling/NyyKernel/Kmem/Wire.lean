import NyyKernel.Kmem.Pages
import NyyKernel.Paging.Translate

namespace Nyy
namespace Kmem

open Pm
open Paging (Addr Mmu Clear Sound Remapped hardwareWalk pagePath Canonical pteAddress)
open Radix (descend find)

variable {k : Setup} {m m' : Mmu State} {v : Addr} {i : Nat} {entry : BitVec 64} {p : PagePtr}

def wiredEntry (k : Setup) (a : Addr) : BitVec 64 :=
  Paging.newEntry k.features 0 a .writethrough Paging.kVmAll

structure Wired (k : Setup) (v : Addr) (m m' : Mmu State) (p : PagePtr) (a : Addr) (pm : State)
    : Prop where
  reused : Reused m.pm pm p .free .wired a
  ok : PagesOk pm
  remapped : Remapped (tablePage k.cfg) (frames .vm) k.kmap v ⟨m.mem, pm⟩ m'
    (some (.page4K (wiredEntry k a)))

theorem wirePage_spec (hok : PagesOk m.pm) (hsound : Sound m.mem k.kmap (frames .vm m.pm))
    (hv : Canonical (BitVec.ofNat 64 i)) (hclear : Clear m.mem k.kmap (pagePath (BitVec.ofNat 64 i)))
    (he : wirePage k i m = .ok m')
    : ∃ p a pm, Wired k (BitVec.ofNat 64 i) m m' p a pm := by
  unfold wirePage at he
  rcases Except.bind_eq_ok he with ⟨⟨p, pm⟩, halloc, he⟩
  dsimp only at he
  split at he
  . cases he
  . next page hpage =>
    rcases hok.allocate (by decide) halloc with ⟨hok', ⟨a, hreused⟩, _, _⟩
    have ha : Pm.pg2p page = a := by
      rcases hreused.after with ⟨page', hpage', _, rfl⟩
      rw [hpage] at hpage'
      cases hpage'
      rfl
    subst ha
    have hsound' : Sound m.mem k.kmap (frames .vm pm) := by
      rw [hreused.frames_other (by decide) (by decide)]
      exact hsound
    have hmap := Paging.vmPortMap_spec (m := ⟨m.mem, pm⟩) (pageSource k.cfg) hok' hsound' hclear hv
      (by decide) he
    rw [Paging.present_newEntry _ _ _ _ (by decide), if_pos rfl] at hmap
    exact ⟨p, _, pm, hreused, hok', hmap⟩

theorem vmPortTranslate_mapped {π : Type} (lookup : Addr → Option π)
    (hclear : Clear m.mem k.kmap (pagePath v)) (hwalk : hardwareWalk m.mem k.kmap v = some (.page4K entry))
    : Paging.vmPortTranslate (tablePage k.cfg) lookup m k.kmap v =
        .ok (lookup (entry &&& pteAddress), m) := by
  rw [Paging.hardwareWalk_of_clear hclear] at hwalk
  rcases Option.map_eq_some_iff.mp hwalk with ⟨entry', hfind, heq⟩
  cases heq
  cases hd : descend Paging.tableBelow m.mem k.kmap (pagePath v) with
  | none =>
    rw [Radix.find_none _ hd] at hfind
    cases hfind
  | some t =>
    rw [Radix.find_of _ hd] at hfind
    cases (Option.filter_eq_some_iff.mp hfind).1
    have hpaddr : Paging.vmPortTranslatePaddr (tablePage k.cfg) m k.kmap v = _ :=
      Paging.vmPortTranslatePaddr_eq hclear
    rw [hd] at hpaddr
    rw [Paging.vmPortTranslate_of hpaddr, if_neg (Paging.and_pteAddress_ne _)]

theorem HasFrame.pmLookup_eq {s : State} (h : Shaped s) {usage : PageUse} {a : Addr}
    (hp : HasFrame s usage a p)
    : pmLookup s a = some p := by
  rcases hp with ⟨page, hpage, _, rfl⟩
  exact h.pmLookup_eq hpage ⟨Nat.le_refl _, by omega⟩

theorem unwirePage_spec (hok : PagesOk m.pm) (hsound : Sound m.mem k.kmap (frames .vm m.pm))
    (hv : Canonical (BitVec.ofNat 64 i)) (hclear : Clear m.mem k.kmap (pagePath (BitVec.ofNat 64 i)))
    (hwalk : hardwareWalk m.mem k.kmap (BitVec.ofNat 64 i) = some (.page4K entry))
    (hframe : HasFrame m.pm .wired (entry &&& pteAddress) p) (he : unwirePage k i m = .ok m')
    : Remapped (tablePage k.cfg) (frames .vm) k.kmap (BitVec.ofNat 64 i) m ⟨m'.mem, m.pm⟩ none ∧
        pmFree k.cfg m.pm p = .ok m'.pm := by
  unfold unwirePage at he
  rw [vmPortTranslate_mapped _ hclear hwalk, Except.ok_bind] at he
  dsimp only at he
  rw [hframe.pmLookup_eq hok.ok.shaped, Option.isSome_some, check_true, Except.ok_bind] at he
  dsimp only at he
  rcases Except.bind_eq_ok he with ⟨m1, hunmap, he⟩
  rcases Except.bind_eq_ok he with ⟨pm, hfree, he⟩
  cases he
  rcases Paging.vmPortUnmap_spec (pageSource k.cfg) hok hsound hclear hv (by decide) hunmap with
    ⟨hremapped, hpm⟩
  rw [hpm] at hfree
  refine ⟨?_, hfree⟩
  rcases m1 with ⟨mem1, pm1⟩
  cases hpm
  exact hremapped

end Kmem
end Nyy
