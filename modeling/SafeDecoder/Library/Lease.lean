import Mathlib.Data.Option.Basic

/-! # A lock that may end under its holder

The lock says whose it is, but a release does not look at that: it ends whatever
is held. Parties acquire the lock once and release it once.
-/
namespace SafeDecoder

structure Lease (T : Type*) where
  owner : Option T
  acquired : T → Prop
  released : T → Prop
  /-- The parties whose own lease has ended before they released it. -/
  expired : T → Prop
  /-- Somebody has released the lock of another. -/
  stolen : Prop
  /-- Somebody whose own lease had ended has released the lock while it was held. -/
  overdue : Prop

namespace Lease
variable {T : Type*}

/-- Nobody has done anything. -/
def free : Lease T := ⟨none,fun _ => False,fun _ => False,fun _ => False,False,False⟩

variable (g : Lease T) (i : T)

def acquire : Lease T := { g with owner := some i, acquired := fun k => k = i ∨ g.acquired k }

def expire : Lease T :=
  { g with owner := none, expired := fun k => g.owner = some k ∨ g.expired k }

def release : Lease T :=
  { g with
    owner := none
    released := fun k => k = i ∨ g.released k
    stolen := g.stolen ∨ ∃ k, g.owner = some k ∧ k ≠ i
    overdue := g.overdue ∨ g.expired i ∧ g.owner ≠ none }

/-- The party relies on the lock. -/
structure Live : Prop where
  acquired : g.acquired i
  released : ¬g.released i
  expired : ¬g.expired i

/-- The owner is live, and unless somebody was overdue nobody else is. -/
structure Inv : Prop where
  owner_live : ∀ i, g.owner = some i → g.Live i
  live_owner : ∀ i, g.Live i → ¬g.overdue → g.owner = some i
  released_acquired : ∀ i, g.released i → g.acquired i
  expired_acquired : ∀ i, g.expired i → g.acquired i
  stolen_iff : g.stolen ↔ g.overdue

theorem free_inv : (free : Lease T).Inv where
  owner_live := fun _ h => nomatch h
  live_owner := fun _ h => h.acquired.elim
  released_acquired := fun _ h => h
  expired_acquired := fun _ h => h
  stolen_iff := Iff.rfl

variable {g i}

theorem Inv.acquire (h : g.Inv) (hfree : g.owner = none) (hnew : ¬g.acquired i) :
    (g.acquire i).Inv where
  owner_live := by
    intro k hk
    obtain rfl : i = k := Option.some.inj hk
    exact ⟨.inl rfl,fun hr => hnew (h.released_acquired i hr),
      fun he => hnew (h.expired_acquired i he)⟩
  live_owner := by
    rintro k ⟨hk | hk,hr,he⟩ hoverdue
    · exact congrArg some hk.symm
    · have howner := h.live_owner k ⟨hk,hr,he⟩ hoverdue
      rw [hfree] at howner
      cases howner
  released_acquired := fun k hk => .inr (h.released_acquired k hk)
  expired_acquired := fun k hk => .inr (h.expired_acquired k hk)
  stolen_iff := h.stolen_iff

theorem Inv.expire (h : g.Inv) : g.expire.Inv where
  owner_live := fun _ hk => nomatch hk
  live_owner := by
    intro k hk hoverdue
    have howner := h.live_owner k ⟨hk.acquired,hk.released,fun he => hk.expired (.inr he)⟩ hoverdue
    exact absurd (.inl howner) hk.expired
  released_acquired := h.released_acquired
  expired_acquired := by
    rintro k (hk | hk)
    · exact (h.owner_live k hk).acquired
    · exact h.expired_acquired k hk
  stolen_iff := h.stolen_iff

theorem Inv.release (h : g.Inv) (ha : g.acquired i) (hr : ¬g.released i) : (g.release i).Inv where
  owner_live := fun _ hk => nomatch hk
  live_owner := by
    intro k hk hoverdue
    obtain ⟨hbefore,hnow⟩ := not_or.mp hoverdue
    have howner := h.live_owner k ⟨hk.acquired,fun h => hk.released (.inr h),hk.expired⟩ hbefore
    -- the party that releases is not live any more, so the owner would be another
    have hexpired : g.expired i := by
      by_contra he
      have howner' := h.live_owner i ⟨ha,hr,he⟩ hbefore
      rw [howner] at howner'
      exact hk.released (.inl (Option.some.inj howner'))
    exact absurd ⟨hexpired,by simp [howner]⟩ hnow
  released_acquired := by
    rintro k (rfl | hk)
    · exact ha
    · exact h.released_acquired k hk
  expired_acquired := h.expired_acquired
  stolen_iff := by
    constructor
    · rintro (hs | ⟨k,howner,hki⟩)
      · exact .inl (h.stolen_iff.mp hs)
      · by_cases hbefore : g.overdue
        · exact .inl hbefore
        · refine .inr ⟨?_,by simp [howner]⟩
          by_contra he
          have howner' := h.live_owner i ⟨ha,hr,he⟩ hbefore
          rw [howner] at howner'
          exact hki (Option.some.inj howner')
    · rintro (ho | ⟨he,howner⟩)
      · exact .inl (h.stolen_iff.mpr ho)
      · obtain ⟨k,hk⟩ := Option.ne_none_iff_exists'.mp howner
        refine .inr ⟨k,hk,fun hki => ?_⟩
        exact (h.owner_live k hk).expired (hki ▸ he)

/-- As long as nobody was overdue, one party relies on the lock at most. -/
theorem Inv.live_unique (h : g.Inv) (hoverdue : ¬g.overdue) {k : T} (hi : g.Live i)
    (hk : g.Live k) : i = k :=
  Option.some.inj ((h.live_owner i hi hoverdue).symm.trans (h.live_owner k hk hoverdue))

end Lease
end SafeDecoder
