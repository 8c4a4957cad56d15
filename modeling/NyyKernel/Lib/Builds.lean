import NyyKernel.Lib.Fault

/-!
This module contains the comparison of two builds of a program, of which the second one has no
assertions.
-/

namespace Nyy

variable {α β : Type}

def Follows (post : α → Prop) (x y : Except Fault α) : Prop := ∀ a, x = .ok a → post a ∧ y = .ok a

-- What an operation uses up, unless `free` holds, and how much of it has to be left.
structure Meter (σ : Type) where
  count : σ → Int
  free : Prop
  floor : Int

def Meter.off {σ : Type} : Meter σ := ⟨fun _ => 0, True, 0⟩

theorem Meter.le_add {σ : Type} (m : Meter σ) (s : σ) (c : Nat) : m.count s ≤ m.count s + c := by
  omega

def FollowsAt {σ : Type} (m : Meter σ) (state : α → σ) (post : α → Prop) (s : σ) (cost : Nat)
    (x y : Except Fault α) : Prop :=
  ∀ a, x = .ok a → post a ∧ m.count s ≤ m.count (state a) + cost ∧
    (m.free ∨ m.floor + cost ≤ m.count s → y = .ok a)

namespace Follows

variable {P : α → Prop} {Q : β → Prop} {x y : Except Fault α} {f g : α → Except Fault β}

theorem of_self (h : ∀ a, x = .ok a → P a) : Follows P x x := by
  intro a ha
  exact ⟨h a ha, ha⟩

theorem pure {a : α} (h : P a) : Follows P (.ok a) (.ok a) := by
  intro b hb
  cases hb
  exact ⟨h, rfl⟩

theorem error {e : Fault} : Follows P (.error e) y := by
  intro a ha
  cases ha

theorem bind (hx : Follows P x y) (hf : ∀ a, P a → Follows Q (f a) (g a))
    : Follows Q (x >>= f) (y >>= g) := by
  intro b hb
  rcases Except.bind_eq_ok hb with ⟨a, ha, hb⟩
  rcases hx a ha with ⟨hp, hy⟩
  rw [hy]
  exact hf a hp b hb

theorem mono {P' : α → Prop} (h : Follows P x y) (hp : ∀ a, P a → P' a) : Follows P' x y := by
  intro a ha
  exact ⟨hp a (h a ha).1, (h a ha).2⟩

theorem check_bind {cfg : Config} {cond : Bool} {x y : Unit → Except Fault α} (h : Follows P (x ()) (y ()))
    : Follows P (check cfg cond >>= x) (check ⟨true⟩ cond >>= y) := by
  intro a ha
  rcases Except.bind_eq_ok ha with ⟨u, _, ha⟩
  exact h a ha

end Follows

namespace FollowsAt

variable {σ : Type} {m : Meter σ} {state : α → σ} {state' : β → σ} {P : α → Prop} {Q : β → Prop} {s t : σ}
  {c k l : Nat} {x y : Except Fault α} {f g : α → Except Fault β}

theorem pure {a : α} (hp : P a) (h : m.count s ≤ m.count (state a) + c)
    : FollowsAt m state P s c (.ok a) (.ok a) := by
  intro b hb
  cases hb
  exact ⟨hp, h, fun _ => rfl⟩

theorem error {e : Fault} : FollowsAt m state P s c (.error e) y := by
  intro a ha
  cases ha

theorem bind (hx : FollowsAt m state P s k x y)
    (hf : ∀ a, P a → FollowsAt m state' Q (state a) l (f a) (g a)) (hc : k + l ≤ c)
    : FollowsAt m state' Q s c (x >>= f) (y >>= g) := by
  intro b hb
  rcases Except.bind_eq_ok hb with ⟨a, ha, hb⟩
  rcases hx a ha with ⟨hp, hle, hy⟩
  rcases hf a hp b hb with ⟨hq, hle', hg⟩
  refine ⟨hq, by omega, ?_⟩
  intro hn
  rw [hy (hn.imp_right fun hn => by omega)]
  exact hg (hn.imp_right fun hn => by omega)

theorem shift (h : FollowsAt m state P t l x y) (hs : m.count s ≤ m.count t + k) (hc : k + l ≤ c)
    : FollowsAt m state P s c x y := by
  intro a ha
  rcases h a ha with ⟨hp, hle, hy⟩
  exact ⟨hp, by omega, fun hn => hy (hn.imp_right fun hn => by omega)⟩

theorem of_follows (h : Follows P x y) (hs : ∀ a, P a → m.count s ≤ m.count (state a) + c)
    : FollowsAt m state P s c x y := by
  intro a ha
  exact ⟨(h a ha).1, hs a (h a ha).1, fun _ => (h a ha).2⟩

theorem bind_follows (hx : Follows P x y) (hf : ∀ a, P a → FollowsAt m state' Q s c (f a) (g a))
    : FollowsAt m state' Q s c (x >>= f) (y >>= g) := by
  intro b hb
  rcases Except.bind_eq_ok hb with ⟨a, ha, hb⟩
  rcases hx a ha with ⟨hp, hy⟩
  rw [hy]
  exact hf a hp b hb

theorem check_bind {cfg : Config} {cond : Bool} {x y : Unit → Except Fault α}
    (h : FollowsAt m state P s c (x ()) (y ()))
    : FollowsAt m state P s c (check cfg cond >>= x) (check ⟨true⟩ cond >>= y) := by
  intro a ha
  rcases Except.bind_eq_ok ha with ⟨u, _, ha⟩
  exact h a ha

theorem toFollows (h : FollowsAt m state P s c x y) (hn : m.free ∨ m.floor + c ≤ m.count s)
    : Follows P x y := by
  intro a ha
  exact ⟨(h a ha).1, (h a ha).2.2 hn⟩

end FollowsAt
end Nyy
