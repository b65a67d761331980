import Mathlib.Data.List.Count
import Mathlib.Data.List.Perm.Basic

/-! # A queue that delivers until a message is settled

A message that has been published waits, is with a consumer, or has been settled in
one of two ways. A consumer answers with a frame, which takes effect when it arrives.
When its connection is lost, what it has not settled is given back and the frames on
their way are lost, so a message can be delivered more often than once, but it is
settled only once.
-/
namespace SafeDecoder

/-- One delivery of a message to a consumer. -/
structure Delivery (M : Type*) where
  tag : ℕ
  consumer : ℕ
  message : M
  deriving DecidableEq

/-- How a consumer answers a delivery: `nack` is the one without requeueing. -/
inductive Frame (M : Type*)
  | ack (d : Delivery M)
  | nack (d : Delivery M)
  deriving DecidableEq

def Frame.delivery {M : Type*} : Frame M → Delivery M
  | ack d | nack d => d

structure Ledger (M : Type*) where
  published : List M
  ready : List M
  unacked : List (Delivery M)
  acked : List (Delivery M)
  dropped : List (Delivery M)
  frames : List (Frame M)
  nextTag : ℕ

namespace Ledger
variable {M : Type*} (q : Ledger M)

def empty (M : Type*) : Ledger M := ⟨[],[],[],[],[],[],0⟩

def publish (m : M) : Ledger M := { q with published := q.published ++ [m], ready := q.ready ++ [m] }

/-- The consumer sends a frame. -/
def answer (f : Frame M) : Ledger M := { q with frames := q.frames ++ [f] }

/-- The connection of a consumer is lost. -/
def requeue (consumer : ℕ) : Ledger M :=
  { q with
    ready := (q.unacked.filter fun d => d.consumer = consumer).map Delivery.message ++ q.ready
    unacked := q.unacked.filter fun d => ¬d.consumer = consumer
    frames := q.frames.filter fun f => ¬f.delivery.consumer = consumer }

/-- What is with a consumer or has been settled. -/
def deliveries : List (Delivery M) := q.unacked ++ (q.acked ++ q.dropped)

/-- Every message that was published is in one place, and every delivery is too. -/
structure Conserved : Prop where
  perm : q.published.Perm (q.ready ++ q.deliveries.map Delivery.message)
  nodup : q.deliveries.Nodup
  tags : ∀ d ∈ q.deliveries, d.tag < q.nextTag
  frames : ∀ f ∈ q.frames, f.delivery.tag < q.nextTag

/-- The delivery has been acknowledged, or will be when a frame arrives. -/
def AckSent (d : Delivery M) : Prop := d ∈ q.acked ∨ .ack d ∈ q.frames

def NackSent (d : Delivery M) : Prop := d ∈ q.dropped ∨ .nack d ∈ q.frames

/-- The queue waits for an answer that is not on its way. -/
def Awaits (d : Delivery M) : Prop := d ∈ q.unacked ∧ ∀ f ∈ q.frames, f.delivery ≠ d

variable {q}

theorem empty_conserved : (empty M).Conserved :=
  ⟨List.Perm.refl _,List.nodup_nil,fun _ h => absurd h List.not_mem_nil,fun _ h => absurd h List.not_mem_nil⟩

theorem Conserved.publish (h : q.Conserved) (m : M) : (q.publish m).Conserved := by
  refine ⟨?_,h.nodup,h.tags,h.frames⟩
  change (q.published ++ [m]).Perm ((q.ready ++ [m]) ++ q.deliveries.map Delivery.message)
  rw [List.append_assoc]
  exact (h.perm.append_right [m]).trans
    ((List.append_assoc ..).symm ▸ (List.perm_append_comm.append_left q.ready))

theorem Conserved.answer (h : q.Conserved) {f : Frame M} (hf : f.delivery.tag < q.nextTag) :
    (q.answer f).Conserved := by
  refine ⟨h.perm,h.nodup,h.tags,fun x hx => ?_⟩
  rcases List.mem_append.mp hx with hold | hnew
  · exact h.frames x hold
  · rwa [List.mem_singleton.mp hnew]

/-- A delivery is at the consumer that is lost, at another one, or settled. -/
theorem deliveries_requeue (consumer : ℕ) : q.deliveries.Perm
    ((q.unacked.filter fun d => d.consumer = consumer) ++ (q.requeue consumer).deliveries) := by
  have hsplit : ((q.unacked.filter fun d => d.consumer = consumer) ++
      q.unacked.filter fun d => ¬d.consumer = consumer).Perm q.unacked := by
    simpa using List.filter_append_perm (fun d : Delivery M => decide (d.consumer = consumer)) q.unacked
  change (q.unacked ++ (q.acked ++ q.dropped)).Perm
    (_ ++ ((q.unacked.filter fun d => ¬d.consumer = consumer) ++ (q.acked ++ q.dropped)))
  rw [← List.append_assoc (q.unacked.filter fun d => d.consumer = consumer)]
  exact hsplit.symm.append_right _

theorem Conserved.requeue (h : q.Conserved) (consumer : ℕ) : (q.requeue consumer).Conserved := by
  have hperm := deliveries_requeue (q := q) consumer
  refine ⟨?_,(List.nodup_append.mp (hperm.nodup_iff.mp h.nodup)).2.1,fun d hd => ?_,fun f hf => ?_⟩
  · refine h.perm.trans (((hperm.map Delivery.message).append_left q.ready).trans ?_)
    rw [List.map_append, ← List.append_assoc]
    exact List.perm_append_comm.append_right _
  · exact h.tags d (hperm.mem_iff.mpr (List.mem_append_right _ hd))
  · exact h.frames f (List.mem_filter.mp hf).1

/-- Where a message that was published can be. -/
theorem Conserved.place (h : q.Conserved) {m : M} (hm : m ∈ q.published) :
    m ∈ q.ready ∨ ∃ d, d.message = m ∧ (d ∈ q.unacked ∨ d ∈ q.acked ∨ d ∈ q.dropped) := by
  rcases List.mem_append.mp (h.perm.mem_iff.mp hm) with hready | hd
  · exact .inl hready
  · obtain ⟨d,hd,hmessage⟩ := List.mem_map.mp hd
    refine .inr ⟨d,hmessage,?_⟩
    rwa [deliveries, List.mem_append, List.mem_append] at hd

section News

/-- Nothing new has been answered for the delivery, and it is not given out again. -/
structure NoNews (d : Delivery M) (q p : Ledger M) : Prop where
  acked : p.AckSent d → q.AckSent d
  nacked : p.NackSent d → q.NackSent d
  awaits : p.Awaits d → q.Awaits d

variable {d : Delivery M}

theorem NoNews.refl (d : Delivery M) (q : Ledger M) : NoNews d q q := ⟨id,id,id⟩

theorem NoNews.trans {p r : Ledger M} (h : NoNews d q p) (h' : NoNews d p r) : NoNews d q r :=
  ⟨h.acked ∘ h'.acked,h.nacked ∘ h'.nacked,h.awaits ∘ h'.awaits⟩

theorem NoNews.publish (d : Delivery M) (m : M) : NoNews d q (q.publish m) := ⟨id,id,id⟩

theorem NoNews.answer {f : Frame M} (hf : f.delivery ≠ d) : NoNews d q (q.answer f) where
  acked := fun h => h.imp_right fun hmem => by
    rcases List.mem_append.mp hmem with hold | hnew
    · exact hold
    · exact absurd (congrArg Frame.delivery (List.mem_singleton.mp hnew)).symm hf
  nacked := fun h => h.imp_right fun hmem => by
    rcases List.mem_append.mp hmem with hold | hnew
    · exact hold
    · exact absurd (congrArg Frame.delivery (List.mem_singleton.mp hnew)).symm hf
  awaits := fun ⟨hd,hframes⟩ => ⟨hd,fun f hmem => hframes f (List.mem_append_left _ hmem)⟩

theorem NoNews.requeue (d : Delivery M) (consumer : ℕ) : NoNews d q (q.requeue consumer) where
  acked := fun h => h.imp_right fun hmem => (List.mem_filter.mp hmem).1
  nacked := fun h => h.imp_right fun hmem => (List.mem_filter.mp hmem).1
  awaits := fun ⟨hd,hframes⟩ => by
    obtain ⟨hmem,hother⟩ := List.mem_filter.mp hd
    refine ⟨hmem,fun f hf hfd => hframes f (List.mem_filter.mpr ⟨hf,?_⟩) hfd⟩
    rw [hfd]
    exact hother

end News

section Settling
variable [DecidableEq M]

variable (q) in
def deliver (consumer : ℕ) (m : M) : Ledger M :=
  { q with
    ready := q.ready.erase m
    unacked := q.unacked ++ [⟨q.nextTag,consumer,m⟩]
    nextTag := q.nextTag + 1 }

variable (q) in
/-- A frame arrives at the queue. -/
def settle : Frame M → Ledger M
  | .ack d =>
    { q with unacked := q.unacked.erase d, acked := q.acked ++ [d], frames := q.frames.erase (.ack d) }
  | .nack d =>
    { q with unacked := q.unacked.erase d, dropped := q.dropped ++ [d], frames := q.frames.erase (.nack d) }

theorem deliveries_deliver (consumer : ℕ) (m : M) :
    (q.deliver consumer m).deliveries.Perm ((⟨q.nextTag,consumer,m⟩ : Delivery M) :: q.deliveries) := by
  change ((q.unacked ++ [Delivery.mk q.nextTag consumer m]) ++ (q.acked ++ q.dropped)).Perm _
  rw [List.append_assoc]
  exact List.perm_middle

theorem Conserved.deliver (h : q.Conserved) (consumer : ℕ) {m : M} (hm : m ∈ q.ready) :
    (q.deliver consumer m).Conserved := by
  have hperm := deliveries_deliver (q := q) consumer m
  refine ⟨?_,?_,fun d hd => ?_,fun f hf => Nat.lt_trans (h.frames f hf) (Nat.lt_succ_self _)⟩
  · refine h.perm.trans (List.Perm.trans ?_ ((hperm.map Delivery.message).symm.append_left _))
    rw [List.map_cons]
    exact ((List.perm_cons_erase hm).append_right _).trans List.perm_middle.symm
  · rw [hperm.nodup_iff, List.nodup_cons]
    exact ⟨fun hd => absurd (h.tags _ hd) (Nat.lt_irrefl _),h.nodup⟩
  · rcases List.mem_cons.mp (hperm.mem_iff.mp hd) with rfl | hd
    · exact Nat.lt_succ_self _
    · exact Nat.lt_trans (h.tags d hd) (Nat.lt_succ_self _)

/-- Settling moves a delivery, and nothing else. -/
theorem deliveries_settle {f : Frame M} (hf : f.delivery ∈ q.unacked) :
    (q.settle f).deliveries.Perm q.deliveries := by
  cases f with
  | ack d =>
    change (q.unacked.erase d ++ ((q.acked ++ [d]) ++ q.dropped)).Perm (q.unacked ++ (q.acked ++ q.dropped))
    rw [List.append_assoc]
    refine List.Perm.trans ?_ ((List.perm_cons_erase hf).append_right _).symm
    exact (List.perm_middle.append_left _).trans List.perm_middle
  | nack d =>
    change (q.unacked.erase d ++ (q.acked ++ (q.dropped ++ [d]))).Perm (q.unacked ++ (q.acked ++ q.dropped))
    refine List.Perm.trans ?_ ((List.perm_cons_erase hf).append_right _).symm
    have hlast : (q.acked ++ (q.dropped ++ [d])).Perm (d :: (q.acked ++ q.dropped)) := by
      rw [← List.append_assoc]
      exact List.perm_append_singleton _ _
    exact (hlast.append_left _).trans List.perm_middle

theorem frames_settle (f : Frame M) : (q.settle f).frames = q.frames.erase f := by
  cases f <;> rfl

theorem unacked_settle (f : Frame M) : (q.settle f).unacked = q.unacked.erase f.delivery := by
  cases f <;> rfl

theorem Conserved.settle (h : q.Conserved) {f : Frame M} (hf : f.delivery ∈ q.unacked) :
    (q.settle f).Conserved := by
  have hperm := deliveries_settle hf
  have hsame : (q.settle f).published = q.published ∧ (q.settle f).ready = q.ready ∧
      (q.settle f).nextTag = q.nextTag := by
    cases f <;> exact ⟨rfl,rfl,rfl⟩
  obtain ⟨hpublished,hready,htag⟩ := hsame
  refine ⟨?_,hperm.nodup_iff.mpr h.nodup,fun d hd => ?_,fun x hx => ?_⟩
  · rw [hpublished, hready]
    exact h.perm.trans ((hperm.map Delivery.message).symm.append_left _)
  · rw [htag]
    exact h.tags d (hperm.mem_iff.mp hd)
  · rw [htag]
    rw [frames_settle] at hx
    exact h.frames x (List.mem_of_mem_erase hx)

theorem NoNews.deliver {d : Delivery M} (hd : d.tag < q.nextTag) (consumer : ℕ) (m : M) :
    NoNews d q (q.deliver consumer m) where
  acked := id
  nacked := id
  awaits := fun ⟨hmem,hframes⟩ => by
    rcases List.mem_append.mp hmem with hold | hnew
    · exact ⟨hold,hframes⟩
    · rw [List.mem_singleton.mp hnew] at hd
      exact absurd hd (Nat.lt_irrefl _)

/-- What arrives had been sent before. -/
theorem NoNews.settle (h : q.Conserved) {f : Frame M} (hf : f ∈ q.frames) (hd : f.delivery ∈ q.unacked)
    (d : Delivery M) : NoNews d q (q.settle f) where
  acked := by
    rintro (hmem | hmem)
    · cases f with
      | ack x =>
        rcases List.mem_append.mp hmem with hold | hnew
        · exact .inl hold
        · rw [List.mem_singleton.mp hnew]
          exact .inr hf
      | nack x => exact .inl hmem
    · rw [frames_settle] at hmem
      exact .inr (List.mem_of_mem_erase hmem)
  nacked := by
    rintro (hmem | hmem)
    · cases f with
      | ack x => exact .inl hmem
      | nack x =>
        rcases List.mem_append.mp hmem with hold | hnew
        · exact .inl hold
        · rw [List.mem_singleton.mp hnew]
          exact .inr hf
    · rw [frames_settle] at hmem
      exact .inr (List.mem_of_mem_erase hmem)
  awaits := by
    rintro ⟨hmem,hframes⟩
    rw [unacked_settle] at hmem
    have hne : d ≠ f.delivery := fun heq =>
      absurd hmem (heq ▸ (List.nodup_append.mp h.nodup).1.not_mem_erase)
    refine ⟨List.mem_of_mem_erase hmem,fun x hx hxd => hframes x ?_ hxd⟩
    rw [frames_settle]
    exact (List.mem_erase_of_ne fun heq => hne (by rw [← hxd, heq])).mpr hx

end Settling
end Ledger
end SafeDecoder
