import Mathlib.Tactic
import Mathlib.Data.List.Nodup
import Mathlib.Data.List.Flatten

/-!
This module contains lists of blocks in which every span marker is followed by the used and free blocks that
tile the span, with no two free blocks next to each other.
-/

namespace Nyy
namespace Tiling

variable {pre post l : List Block} {base size k pos fin q : Nat} {a b : Block} {c c' : Cursor}

inductive Kind where
  | span
  | used
  | free
  deriving DecidableEq, Repr

structure Block where
  kind : Kind
  base : Nat
  size : Nat
  deriving DecidableEq, Repr

structure Cursor where
  pos : Nat
  fin : Nat
  free : Bool

inductive Scan : Cursor → List Block → Cursor → Prop where
  | nil (c : Cursor) : Scan c [] c
  | span {c c' : Cursor} {b : Block} {l : List Block} :
      b.kind = .span → c.pos = c.fin → 0 < b.size →
      Scan ⟨b.base, b.base + b.size, false⟩ l c' → Scan c (b :: l) c'
  | block {c c' : Cursor} {b : Block} {l : List Block} :
      b.kind ≠ .span → b.base = c.pos → 0 < b.size → c.pos + b.size ≤ c.fin →
      ¬ (c.free = true ∧ b.kind = .free) →
      Scan ⟨c.pos + b.size, c.fin, b.kind == .free⟩ l c' → Scan c (b :: l) c'

def Tiled (l : List Block) : Prop := ∃ c, Scan ⟨0, 0, false⟩ l c ∧ c.pos = c.fin

def EndsFree (l : List Block) : Prop := ∃ b, l.getLast? = some b ∧ b.kind = .free

def StartsFree (l : List Block) : Prop := ∃ b, l.head? = some b ∧ b.kind = .free

namespace Scan

variable {c c2 c1 : Cursor} {l l1 l2 : List Block}

theorem append (h1 : Scan c l1 c1) (h2 : Scan c1 l2 c2) : Scan c (l1 ++ l2) c2 := by
  induction h1 with
  | nil => exact h2
  | span hk hc hs _ ih => exact .span hk hc hs (ih h2)
  | block hk hb hs hf hn _ ih => exact .block hk hb hs hf hn (ih h2)

theorem split (h : Scan c (l1 ++ l2) c2) : ∃ c1, Scan c l1 c1 ∧ Scan c1 l2 c2 := by
  induction l1 generalizing c with
  | nil => exact ⟨c, .nil c, h⟩
  | cons b l ih =>
    cases h with
    | span hk hc hs h =>
      rcases ih h with ⟨c1, h1, h2⟩
      exact ⟨c1, .span hk hc hs h1, h2⟩
    | block hk hb hs hf hn h =>
      rcases ih h with ⟨c1, h1, h2⟩
      exact ⟨c1, .block hk hb hs hf hn h1, h2⟩

theorem free_eq (h : Scan c l c')
    : c'.free = (l.getLast?.map (fun b => b.kind == .free)).getD c.free := by
  induction h with
  | nil => rfl
  | @span c c' b l hk hp hs h ih =>
    rw [ih, List.getLast?_cons]
    cases l.getLast? <;> simp [hk]
  | @block c c' b l hk hp hs hf hn h ih =>
    rw [ih, List.getLast?_cons]
    cases l.getLast? <;> simp

theorem endsFree (h : Scan c l c') (hc : c.free = false) (hc' : c'.free = true) : EndsFree l := by
  rw [h.free_eq, hc] at hc'
  unfold EndsFree
  cases hl : l.getLast? with
  | none => simp [hl] at hc'
  | some b =>
    refine ⟨b, rfl, ?_⟩
    simpa [hl] using hc'

theorem of_flag (h : Scan c1 l c) (hpos : c2.pos = c1.pos) (hfin : c2.fin = c1.fin)
    (hfree : c2.free = true → c1.free = true ∨ ¬ StartsFree l)
    : ∃ c', Scan c2 l c' ∧ c'.pos = c.pos ∧ c'.fin = c.fin := by
  cases h with
  | nil => exact ⟨c2, .nil c2, hpos, hfin⟩
  | span hk hc hs h =>
    refine ⟨c, .span hk ?_ hs h, rfl, rfl⟩
    rw [hpos, hfin, hc]
  | block hk hb hs hf hn h =>
    refine ⟨c, .block hk ?_ hs ?_ ?_ ?_, rfl, rfl⟩
    . rw [hb, hpos]
    . rw [hpos, hfin]
      exact hf
    . rintro ⟨hc2, hkind⟩
      rcases hfree hc2 with hc1 | hl
      . exact hn ⟨hc1, hkind⟩
      . exact hl ⟨_, rfl, hkind⟩
    . rw [hpos, hfin]
      exact h

end Scan

theorem Tiled.replace (mid mid' : List Block) (h : Tiled (pre ++ (mid ++ post)))
    (hmid : ∀ c c', Scan c mid c' → (c.free = true → EndsFree pre) →
      ∃ c2, Scan c mid' c2 ∧ c2.pos = c'.pos ∧ c2.fin = c'.fin ∧
        (c2.free = true → c'.free = true ∨ ¬ StartsFree post))
    : Tiled (pre ++ (mid' ++ post)) := by
  rcases h with ⟨c3, h, hclosed⟩
  rcases h.split with ⟨c1, h1, h23⟩
  rcases h23.split with ⟨c2, h2, h3⟩
  rcases hmid c1 c2 h2 (fun hc => h1.endsFree rfl hc) with ⟨d, hd, hpos, hfin, hfree⟩
  rcases h3.of_flag hpos hfin hfree with ⟨e, he, hepos, hefin⟩
  refine ⟨e, h1.append (hd.append he), ?_⟩
  rw [hepos, hefin, hclosed]

theorem Tiled.set_used (h : Tiled (pre ++ ⟨.free, base, size⟩ :: post))
    : Tiled (pre ++ ⟨.used, base, size⟩ :: post) := by
  apply Tiled.replace [⟨.free, base, size⟩] [⟨.used, base, size⟩] h
  intro c c' hmid _
  cases hmid with
  | span hk => simp at hk
  | block hk hb hs hf hn hnil =>
    cases hnil
    refine ⟨_, .block (by simp) hb hs hf (by simp) (.nil _), rfl, rfl, ?_⟩
    simp

theorem Tiled.set_free (h : Tiled (pre ++ ⟨.used, base, size⟩ :: post)) (hpre : ¬ EndsFree pre)
    (hpost : ¬ StartsFree post)
    : Tiled (pre ++ ⟨.free, base, size⟩ :: post) := by
  apply Tiled.replace [⟨.used, base, size⟩] [⟨.free, base, size⟩] h
  intro c c' hmid hc
  cases hmid with
  | span hk => simp at hk
  | block hk hb hs hf hn hnil =>
    cases hnil
    refine ⟨_, .block (by simp) hb hs hf ?_ (.nil _), rfl, rfl, ?_⟩
    . rintro ⟨hfree, _⟩
      exact hpre (hc hfree)
    . intro _
      exact .inr hpost

theorem Tiled.split_used (h : Tiled (pre ++ ⟨.used, base, size⟩ :: post)) (hk : 0 < k) (hlt : k < size)
    : Tiled (pre ++ ⟨.used, base, k⟩ :: ⟨.used, base + k, size - k⟩ :: post) := by
  apply Tiled.replace [⟨.used, base, size⟩]
    [⟨.used, base, k⟩, ⟨.used, base + k, size - k⟩] h
  intro c c' hmid _
  cases hmid with
  | span hk => simp at hk
  | block _ hb hs hf hn hnil =>
    cases hnil
    dsimp only at hb hf
    refine ⟨_, .block (by simp) hb hk ?_ (by simp)
      (.block (by simp) ?_ ?_ ?_ (by simp) (.nil _)), ?_, rfl, by simp⟩
    all_goals
      dsimp only
      omega

theorem Tiled.merge {k1 k2 : Kind} {b1 s1 b2 s2 : Nat}
    (h : Tiled (pre ++ ⟨k1, b1, s1⟩ :: ⟨k2, b2, s2⟩ :: post)) (h1 : k1 ≠ .span) (h2 : k2 ≠ .span)
    : Tiled (pre ++ ⟨.used, b1, s1 + s2⟩ :: post) := by
  apply Tiled.replace [⟨k1, b1, s1⟩, ⟨k2, b2, s2⟩] [⟨.used, b1, s1 + s2⟩] h
  intro c c' hmid _
  cases hmid with
  | span hk => exact absurd hk h1
  | block hk hb hs hf hn hrest =>
    cases hrest with
    | span hk => exact absurd hk h2
    | block hk' hb' hs' hf' hn' hnil =>
      cases hnil
      dsimp only at hb hs hf hs' hf'
      refine ⟨_, .block (by simp) hb ?_ ?_ (by simp) (.nil _), ?_, rfl, by simp⟩
      all_goals
        dsimp only
        omega

theorem Tiled.base_eq (h : Tiled (pre ++ a :: b :: post)) (hb : b.kind ≠ .span)
    : b.base = if a.kind = .span then a.base else a.base + a.size := by
  rcases h with ⟨c3, h, _⟩
  rcases h.split with ⟨c, _, h⟩
  cases h with
  | span ha _ _ h =>
    cases h with
    | span hk => exact absurd hk hb
    | block _ hbase => simpa [ha] using hbase
  | block ha hpos _ _ _ h =>
    cases h with
    | span hk => exact absurd hk hb
    | block _ hbase => simpa [ha, hpos] using hbase

theorem Tiled.add_span (h : Tiled l) (hs : 0 < size)
    : Tiled (l ++ [⟨.span, base, size⟩, ⟨.free, base, size⟩]) := by
  rcases h with ⟨c, h, hclosed⟩
  refine ⟨_, h.append (.span rfl hclosed hs
    (.block (by simp) rfl hs (Nat.le_refl _) (by simp) (.nil _))), rfl⟩

theorem Tiled.drop_span {k : Kind} (h : Tiled (pre ++ ⟨.span, base, size⟩ :: ⟨k, base, size⟩ :: post))
    (hk : k ≠ .span)
    : Tiled (pre ++ post) := by
  rcases h with ⟨c3, h, hclosed⟩
  rcases h.split with ⟨c1, h1, h2⟩
  cases h2 with
  | block hspan => simp at hspan
  | span _ hc _ h2 =>
    cases h2 with
    | span hspan => exact absurd hspan hk
    | block _ _ hs _ _ h2 =>
      -- behind the dropped span the scan is at the end of a span, where only a span can follow
      cases h2 with
      | nil =>
        refine ⟨c1, ?_, hc⟩
        rw [List.append_nil]
        exact h1
      | span hspan _ hs' h3 => exact ⟨c3, h1.append (.span hspan hc hs' h3), hclosed⟩
      | block _ _ hs' hf =>
        dsimp only at hf
        omega

def Contiguous (pos fin : Nat) : List Block → Prop
  | [] => pos = fin
  | b :: l => b.base = pos ∧ Contiguous (pos + b.size) fin l

structure Group where
  span : Block
  blocks : List Block
  is_span : span.kind = .span
  not_span : ∀ b ∈ blocks, b.kind ≠ .span
  nonempty : ∀ b ∈ blocks, 0 < b.size
  tile : Contiguous span.base (span.base + span.size) blocks
  no_two_free : blocks.IsChain (fun a b => ¬ (a.kind = .free ∧ b.kind = .free))

def Group.toList (g : Group) : List Block := g.span :: g.blocks

theorem Scan.groups (h : Scan c l c') (hclosed : c'.pos = c'.fin)
    : ∃ (first : List Block) (gs : List Group),
        l = first ++ gs.flatMap Group.toList ∧
        (∀ b ∈ first, b.kind ≠ .span) ∧
        (∀ b ∈ first, 0 < b.size) ∧
        Contiguous c.pos c.fin first ∧
        (c.free = true → ¬ StartsFree first) ∧
        first.IsChain (fun a b => ¬ (a.kind = .free ∧ b.kind = .free)) := by
  induction h with
  | nil c => exact ⟨[], [], by simp [Contiguous, StartsFree, hclosed]⟩
  | @span c c' b l hk hc hs h ih =>
    rcases ih hclosed with ⟨first, gs, hl, hspan, hsize, htile, _, hchain⟩
    let g : Group := ⟨b, first, hk, hspan, hsize, htile, hchain⟩
    refine ⟨[], g :: gs, ?_, ?_⟩
    . simp [hl, g, Group.toList]
    . simp [Contiguous, StartsFree, hc]
  | @block c c' b l hk hb hs hf hn h ih =>
    rcases ih hclosed with ⟨first, gs, hl, hspan, hsize, htile, hfree, hchain⟩
    refine ⟨b :: first, gs, ?_, ?_, ?_, ⟨hb, htile⟩, ?_, ?_⟩
    . simp [hl]
    . intro b' hb'
      cases hb' with
      | head => exact hk
      | tail _ hb' => exact hspan b' hb'
    . intro b' hb'
      cases hb' with
      | head => exact hs
      | tail _ hb' => exact hsize b' hb'
    . rintro hc ⟨b', hb', hkind⟩
      simp only [List.head?_cons, Option.some.injEq] at hb'
      subst hb'
      exact hn ⟨hc, hkind⟩
    . rw [List.isChain_cons]
      refine ⟨?_, hchain⟩
      rintro b' hb' ⟨hbf, hbf'⟩
      refine hfree ?_ ⟨b', hb', hbf'⟩
      simpa using hbf

theorem Tiled.groups (h : Tiled l) : ∃ gs : List Group, l = gs.flatMap Group.toList := by
  rcases h with ⟨c, h, hclosed⟩
  rcases h.groups hclosed with ⟨first, gs, hl, _, hsize, htile, _⟩
  cases first with
  | nil => exact ⟨gs, by simpa using hl⟩
  | cons b first =>
    have hb := hsize b List.mem_cons_self
    have hle : ∀ (l : List Block) (p : Nat), Contiguous p 0 l → p = 0 := by
      intro l
      induction l with
      | nil => exact fun p hp => hp
      | cons b l ih =>
        intro p hp
        have := ih _ hp.2
        omega
    have := hle _ _ htile.2
    omega

def Block.Disjoint (a b : Block) : Prop := a.base + a.size ≤ b.base ∨ b.base + b.size ≤ a.base

def Block.Inside (a b : Block) : Prop := b.base ≤ a.base ∧ a.base + a.size ≤ b.base + b.size

theorem Block.Disjoint.symm (h : a.Disjoint b) : b.Disjoint a := Or.symm h

theorem Block.Disjoint.mono {a' b' : Block} (h : a.Disjoint b) (ha : a'.Inside a) (hb : b'.Inside b)
    : a'.Disjoint b' := by
  unfold Block.Disjoint Block.Inside at *
  omega

theorem Contiguous.bounds (h : Contiguous pos fin l)
    : pos ≤ fin ∧ ∀ b ∈ l, pos ≤ b.base ∧ b.base + b.size ≤ fin := by
  induction l generalizing pos with
  | nil =>
    unfold Contiguous at h
    simp [h]
  | cons b l ih =>
    rcases h with ⟨hb, h⟩
    rcases ih h with ⟨hle, hbounds⟩
    refine ⟨by omega, ?_⟩
    intro b' hb'
    cases hb' with
    | head => omega
    | tail _ hb' =>
      have := hbounds b' hb'
      omega

theorem Contiguous.pairwise (h : Contiguous pos fin l) : l.Pairwise Block.Disjoint := by
  induction l generalizing pos with
  | nil => exact .nil
  | cons b l ih =>
    rcases h with ⟨hb, h⟩
    refine .cons ?_ (ih h)
    intro b' hb'
    have := h.bounds.2 b' hb'
    unfold Block.Disjoint
    omega

theorem Group.inside (g : Group) (h : b ∈ g.blocks) : b.Inside g.span := by
  exact g.tile.bounds.2 b h

theorem Group.blocks_of_free (g : Group) (hfree : ∀ b ∈ g.blocks, b.kind = .free) (hpos : 0 < g.span.size)
    : g.blocks = [⟨.free, g.span.base, g.span.size⟩] := by
  have htile := g.tile
  have hchain := g.no_two_free
  generalize g.blocks = l at *
  cases l with
  | nil =>
    unfold Contiguous at htile
    omega
  | cons b l =>
    have hb := hfree b List.mem_cons_self
    cases l with
    | nil =>
      rcases b with ⟨kind, base, size⟩
      simp only [Contiguous] at htile
      cases hb
      have hsize : size = g.span.size := by omega
      rw [htile.1, hsize]
    | cons c l =>
      have hc := hfree c (by simp)
      simp [hb, hc] at hchain

theorem Tiled.pairwise (h : Tiled l)
    (hspan : l.Pairwise (fun a b => a.kind = .span → b.kind = .span → a.Disjoint b))
    : l.Pairwise (fun a b => a.kind ≠ .span → b.kind ≠ .span → a.Disjoint b) := by
  rcases h.groups with ⟨gs, rfl⟩
  rw [List.pairwise_flatMap] at hspan ⊢
  constructor
  . intro g hg
    unfold Group.toList
    refine .cons ?_ ?_
    . intro b _ hk
      exact absurd g.is_span hk
    . apply g.tile.pairwise.imp
      intro a b hab _ _
      exact hab
  . apply hspan.2.imp
    intro g1 g2 h12 a ha b hb hak hbk
    have h := h12 g1.span List.mem_cons_self g2.span List.mem_cons_self g1.is_span g2.is_span
    cases ha with
    | head => exact absurd g1.is_span hak
    | tail _ ha =>
      cases hb with
      | head => exact absurd g2.is_span hbk
      | tail _ hb => exact h.mono (g1.inside ha) (g2.inside hb)

theorem Tiled.inside (h : Tiled l) (hb : b ∈ l) (hk : b.kind ≠ .span)
    : ∃ s ∈ l, s.kind = .span ∧ b.Inside s := by
  rcases h.groups with ⟨gs, rfl⟩
  rcases List.mem_flatMap.mp hb with ⟨g, hg, hb⟩
  cases hb with
  | head => exact absurd g.is_span hk
  | tail _ hb =>
    refine ⟨g.span, ?_, g.is_span, g.inside hb⟩
    exact List.mem_flatMap.mpr ⟨g, hg, List.mem_cons_self⟩

theorem Scan.size_pos (h : Scan c l c') (hb : b ∈ l) : 0 < b.size := by
  induction h with
  | nil => cases hb
  | span _ _ hs _ ih =>
    cases hb with
    | head => exact hs
    | tail _ hb => exact ih hb
  | block _ _ hs _ _ _ ih =>
    cases hb with
    | head => exact hs
    | tail _ hb => exact ih hb

theorem Tiled.size_pos (h : Tiled l) (hb : b ∈ l) : 0 < b.size := by
  rcases h with ⟨c, h, _⟩
  exact h.size_pos hb

theorem Tiled.neighbours (h : Tiled (pre ++ b :: post)) (hb : b.kind = .free)
    : ¬ EndsFree pre ∧ ¬ StartsFree post := by
  rcases h with ⟨c, h, _⟩
  rcases h.split with ⟨c1, h1, h2⟩
  cases h2 with
  | span hk => simp [hb] at hk
  | block hk _ _ _ hn h2 =>
    constructor
    . rintro ⟨b', hlast, hfree⟩
      apply hn
      rw [h1.free_eq, hlast]
      simp [hfree, hb]
    . rintro ⟨b', hhead, hfree⟩
      cases h2 with
      | nil => simp at hhead
      | span hk' =>
        simp only [List.head?_cons, Option.some.injEq] at hhead
        subst hhead
        simp [hfree] at hk'
      | block hk' _ _ _ hn' =>
        simp only [List.head?_cons, Option.some.injEq] at hhead
        subst hhead
        simp [hb, hfree] at hn'

theorem Tiled.bounded (h : Tiled l) (hspan : ∀ s ∈ l, s.kind = .span → s.base + s.size ≤ k ∧ s.size < k)
    : ∀ b ∈ l, b.base + b.size ≤ k ∧ b.size < k := by
  intro b hb
  by_cases hk : b.kind = .span
  . exact hspan b hb hk
  . rcases h.inside hb hk with ⟨s, hs, hsk, hin⟩
    have := hspan s hs hsk
    unfold Block.Inside at hin
    omega

theorem Scan.aligned (h : Scan c l c') (hclosed : c'.pos = c'.fin)
    (hl : ∀ b ∈ l, b.kind ≠ .free → q ∣ b.base ∧ q ∣ b.size) (hfin : q ∣ c.fin)
    (hpos : c.free = false → q ∣ c.pos)
    : q ∣ c.pos ∧ ∀ b ∈ l, q ∣ b.base ∧ q ∣ b.size := by
  induction h with
  | nil c =>
    rw [hclosed]
    simp [hfin]
  | @span c c' b l hk hc hs h ih =>
    have hb := hl b List.mem_cons_self (by simp [hk])
    have hrest := ih hclosed (fun b' hb' => hl b' (List.mem_cons_of_mem _ hb'))
      (Nat.dvd_add hb.1 hb.2) (fun _ => hb.1)
    rw [hc]
    exact ⟨hfin, List.forall_mem_cons.mpr ⟨hb, hrest.2⟩⟩
  | @block c c' b l hk hb hs hf hn h ih =>
    have ih := ih hclosed (fun b' hb' => hl b' (List.mem_cons_of_mem _ hb')) hfin
    by_cases hfree : b.kind = .free
    . have hcpos : q ∣ c.pos := hpos (by simpa [hfree] using hn)
      have hrest := ih (by simp [hfree])
      have hsize : q ∣ b.size := (Nat.dvd_add_right hcpos).mp hrest.1
      refine ⟨hcpos, List.forall_mem_cons.mpr ⟨⟨?_, hsize⟩, hrest.2⟩⟩
      rw [hb]
      exact hcpos
    . have hblock := hl b List.mem_cons_self hfree
      rw [← hb] at ih ⊢
      have hrest := ih (fun _ => Nat.dvd_add hblock.1 hblock.2)
      exact ⟨hblock.1, List.forall_mem_cons.mpr ⟨hblock, hrest.2⟩⟩

theorem Tiled.aligned (h : Tiled l) (hl : ∀ b ∈ l, b.kind ≠ .free → q ∣ b.base ∧ q ∣ b.size)
    : ∀ b ∈ l, q ∣ b.base ∧ q ∣ b.size := by
  rcases h with ⟨c, h, hclosed⟩
  exact (h.aligned hclosed hl (Nat.dvd_zero q) (fun _ => Nat.dvd_zero q)).2

def total (k : Kind) (l : List Block) : Nat := ((l.filter fun b => b.kind = k).map Block.size).sum

@[simp]
theorem total_nil (k : Kind) : total k [] = 0 := rfl

theorem total_cons (k : Kind) (b : Block) (l : List Block)
    : total k (b :: l) = (if b.kind = k then b.size else 0) + total k l := by
  unfold total
  by_cases hb : b.kind = k
  . simp [hb]
  . simp [hb]

theorem Scan.total_eq (h : Scan c l c') (hle : c.pos ≤ c.fin)
    : c'.pos ≤ c'.fin ∧
        (c.fin - c.pos) + total .span l = total .used l + total .free l + (c'.fin - c'.pos) := by
  -- a span marker opens a gap that the blocks behind it fill
  induction h with
  | nil c => exact ⟨hle, by simp⟩
  | @span c c' b l hk hc hs h ih =>
    have ih := ih (by simp)
    rw [total_cons, total_cons, total_cons, hk]
    simp only [reduceCtorEq, if_true, if_false]
    dsimp only at ih
    omega
  | @block c c' b l hk hb hs hf hn h ih =>
    have ih := ih hf
    rw [total_cons, total_cons, total_cons]
    dsimp only at ih
    cases hkind : b.kind with
    | span => exact absurd hkind hk
    | used =>
      simp only [reduceCtorEq, if_true, if_false]
      omega
    | free =>
      simp only [reduceCtorEq, if_true, if_false]
      omega

theorem Tiled.total_span (h : Tiled l) : total .span l = total .used l + total .free l := by
  rcases h with ⟨c, h, hclosed⟩
  have htotal := (h.total_eq (Nat.le_refl 0)).2
  dsimp only at htotal
  omega

end Tiling
end Nyy
