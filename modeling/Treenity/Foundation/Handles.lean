import Mathlib.Data.List.TakeWhile
import Mathlib.Logic.Function.Basic

namespace treenity.foundation

/-- What an event does with a handle that a system gives out and takes back. -/
inductive Act (η : Type) where
  | acquire (handle : η)
  | use (handle : η)
  | release (handle : η)
  deriving DecidableEq

variable {η ε ι : Type}

/-- Who holds what: the handles given out are those of the holders, each with one of them. -/
structure Owned (own : ι → Option η) (held : List η) : Prop where
  mem_iff : ∀ handle, handle ∈ held ↔ ∃ holder, own holder = some handle
  injective : ∀ holder other handle, own holder = some handle → own other = some handle → holder = other

theorem Owned.empty {own : ι → Option η} (hnone : ∀ holder, own holder = none) : Owned own [] :=
  ⟨fun handle => by simp [hnone], fun holder other handle hholder => by simp [hnone] at hholder⟩

theorem Owned.existsUnique {own : ι → Option η} {held : List η} {handle : η} (howned : Owned own held)
    (hheld : handle ∈ held) : ∃! holder, own holder = some handle := by
  obtain ⟨holder, hholder⟩ := (howned.mem_iff handle).mp hheld
  exact ⟨holder, hholder, fun other hother => howned.injective other holder handle hother hholder⟩

variable [DecidableEq η]

namespace Act

/-- The handles given out after an act. -/
def apply (held : List η) : Act η → List η
  | acquire handle => handle :: held
  | use _ => held
  | release handle => held.filter (fun other => other ≠ handle)

/-- A handle is given out when it is free, and used or taken back when it is not. -/
def Legal (held : List η) : Act η → Prop
  | acquire handle => handle ∉ held
  | use handle => handle ∈ held
  | release handle => handle ∈ held

end Act

/-- The handles given out after some events. -/
def handles (act : ε → Act η) (held : List η) (events : List ε) : List η :=
  events.foldl (fun held event => (act event).apply held) held

/-- Every event is legal where it happens. -/
def Disciplined (act : ε → Act η) : List η → List ε → Prop
  | _, [] => True
  | held, event :: rest => (act event).Legal held ∧ Disciplined act ((act event).apply held) rest

/-- The part of the events for which a handle stays with who acquired it: the next
acquisition is that of another. -/
def tenure (act : ε → Act η) (handle : η) (events : List ε) : List ε :=
  events.takeWhile (fun event => act event ≠ .acquire handle)

section Events

variable {act : ε → Act η}

@[simp] theorem handles_nil (held : List η) : handles act held [] = held := rfl

@[simp] theorem handles_cons (held : List η) (event : ε) (rest : List ε) :
    handles act held (event :: rest) = handles act ((act event).apply held) rest := rfl

theorem handles_append (held : List η) (first second : List ε) :
    handles act held (first ++ second) = handles act (handles act held first) second :=
  List.foldl_append

theorem disciplined_append (held : List η) (first second : List ε) :
    Disciplined act held (first ++ second) ↔
      Disciplined act held first ∧ Disciplined act (handles act held first) second := by
  induction first generalizing held with
  | nil => simp [Disciplined]
  | cons event rest ih => simp [Disciplined, ih, and_assoc]

/-- No handle is given out twice. -/
theorem Disciplined.nodup {held : List η} {events : List ε} (hdisciplined : Disciplined act held events)
    (hnodup : held.Nodup) : (handles act held events).Nodup := by
  induction events generalizing held with
  | nil => exact hnodup
  | cons event rest ih =>
    obtain ⟨hlegal, hrest⟩ := hdisciplined
    have hstill : ((act event).apply held).Nodup := by
      cases hact : act event with
      | acquire handle =>
        rw [hact] at hlegal
        exact List.nodup_cons.mpr ⟨hlegal, hnodup⟩
      | use handle => exact hnodup
      | release handle => exact hnodup.filter _
    exact ih hrest hstill

/-- A handle that is not taken back stays given out. -/
theorem mem_handles_of_kept {handle : η} {held : List η} {events : List ε} (hheld : handle ∈ held)
    (hkept : ∀ event ∈ events, act event ≠ .release handle) : handle ∈ handles act held events := by
  induction events generalizing held with
  | nil => exact hheld
  | cons event rest ih =>
    obtain ⟨hevent, hrest⟩ := List.forall_mem_cons.mp hkept
    have hstill : handle ∈ (act event).apply held := by
      cases hact : act event with
      | acquire other => exact List.mem_cons_of_mem _ hheld
      | use other => exact hheld
      | release other =>
        have hother : handle ≠ other := fun hsame => hevent (hsame ▸ hact)
        simp [Act.apply, hheld, hother]
    exact ih hstill hrest

/-- A free handle is left alone until it is acquired. -/
theorem Disciplined.untouched {handle : η} {held : List η} {events : List ε}
    (hdisciplined : Disciplined act held events) (hfree : handle ∉ held)
    (hnone : ∀ event ∈ events, act event ≠ .acquire handle) :
    ∀ event ∈ events, act event ≠ .use handle ∧ act event ≠ .release handle := by
  induction events generalizing held with
  | nil => simp
  | cons event rest ih =>
    obtain ⟨hlegal, hafter⟩ := hdisciplined
    obtain ⟨hevent, hrest⟩ := List.forall_mem_cons.mp hnone
    have hstill : handle ∉ (act event).apply held := by
      cases hact : act event with
      | acquire other =>
        have hother : handle ≠ other := fun hsame => hevent (hsame ▸ hact)
        simpa [Act.apply] using ⟨hother, hfree⟩
      | use other => exact hfree
      | release other => exact fun hmem => hfree (List.mem_filter.mp hmem).1
    refine List.forall_mem_cons.mpr ⟨⟨?_, ?_⟩, ih hafter hstill hrest⟩
    · intro hact
      rw [hact] at hlegal
      exact hfree hlegal
    · intro hact
      rw [hact] at hlegal
      exact hfree hlegal

/-- Once taken back, a handle is neither used nor taken back again during its tenure. -/
theorem Disciplined.after_release {handle : η} {held : List η} {events first rest : List ε} {event : ε}
    (hdisciplined : Disciplined act held events) (hsplit : tenure act handle events = first ++ event :: rest)
    (hrelease : act event = .release handle) :
    ∀ later ∈ rest, act later ≠ .use handle ∧ act later ≠ .release handle := by
  have hnone : ∀ later ∈ tenure act handle events, act later ≠ .acquire handle := by
    intro later hlater
    simpa using List.mem_takeWhile_imp hlater
  obtain ⟨beyond, hbeyond⟩ : tenure act handle events <+: events := List.takeWhile_prefix _
  rw [← hbeyond, hsplit, disciplined_append, disciplined_append] at hdisciplined
  obtain ⟨⟨_, _, hrest⟩, _⟩ := hdisciplined
  apply hrest.untouched
  · simp [hrelease, Act.apply]
  · exact fun later hlater => hnone later (by simp [hsplit, hlater])

end Events

/-- Wherever `own` tells who holds what, the events are disciplined and lead to `next`. -/
def Custody (act : ε → Act η) (own : ι → Option η) (events : List ε) (next : ι → Option η) : Prop :=
  ∀ held, Owned own held → Disciplined act held events ∧ Owned next (handles act held events)

namespace Custody

variable {act : ε → Act η} {own middle next : ι → Option η}

theorem refl (own : ι → Option η) : Custody act own [] own := fun _ howned => ⟨trivial, howned⟩

theorem trans {first second : List ε} (hfirst : Custody act own first middle)
    (hsecond : Custody act middle second next) : Custody act own (first ++ second) next := by
  intro held howned
  obtain ⟨hdisciplined, hmiddle⟩ := hfirst held howned
  obtain ⟨hmore, hnext⟩ := hsecond _ hmiddle
  rw [disciplined_append, handles_append]
  exact ⟨⟨hdisciplined, hmore⟩, hnext⟩

/-- A holder uses its handle. -/
theorem use {holder : ι} {handle : η} {event : ε} (hholder : own holder = some handle)
    (hact : act event = .use handle) : Custody act own [event] own := by
  intro held howned
  have hheld := (howned.mem_iff handle).mpr ⟨holder, hholder⟩
  simpa [Disciplined, hact, Act.Legal, Act.apply] using ⟨hheld, howned⟩

variable [DecidableEq ι]

/-- A holder gives its handle back. -/
theorem release {holder : ι} {handle : η} {event : ε} (hholder : own holder = some handle)
    (hact : act event = .release handle) : Custody act own [event] (Function.update own holder none) := by
  intro held howned
  have hheld := (howned.mem_iff handle).mpr ⟨holder, hholder⟩
  refine ⟨by simpa [Disciplined, hact, Act.Legal] using hheld, ?_, ?_⟩
  · intro other
    simp only [handles_cons, handles_nil, hact, Act.apply, List.mem_filter, howned.mem_iff, decide_eq_true_eq,
      Function.update_apply]
    constructor
    · rintro ⟨⟨keeper, hkeeper⟩, hother⟩
      have hne : keeper ≠ holder := fun hsame => hother (Option.some.inj (hkeeper.symm.trans (hsame ▸ hholder)))
      exact ⟨keeper, by rw [if_neg hne, hkeeper]⟩
    · rintro ⟨keeper, hkeeper⟩
      split at hkeeper
      · cases hkeeper
      · rename_i hne
        refine ⟨⟨keeper, hkeeper⟩, fun hsame => hne ?_⟩
        exact howned.injective keeper holder handle (hsame ▸ hkeeper) hholder
  · intro first second other hfirst hsecond
    rw [Function.update_apply] at hfirst hsecond
    split at hfirst
    · cases hfirst
    · split at hsecond
      · cases hsecond
      · exact howned.injective first second other hfirst hsecond

/-- A holder without a handle gets one that nobody has. -/
theorem acquire {holder : ι} {handle : η} {event : ε} (hvacant : own holder = none)
    (hfree : ∀ other, own other ≠ some handle) (hact : act event = .acquire handle) :
    Custody act own [event] (Function.update own holder (some handle)) := by
  intro held howned
  have hheld : handle ∉ held := fun hmem => by
    obtain ⟨other, hother⟩ := (howned.mem_iff handle).mp hmem
    exact hfree other hother
  refine ⟨by simpa [Disciplined, hact, Act.Legal] using hheld, ?_, ?_⟩
  · intro other
    simp only [handles_cons, handles_nil, hact, Act.apply, List.mem_cons, howned.mem_iff, Function.update_apply]
    constructor
    · rintro (rfl | ⟨keeper, hkeeper⟩)
      · exact ⟨holder, if_pos rfl⟩
      · have hne : keeper ≠ holder := fun hsame => by simp [hsame, hvacant] at hkeeper
        exact ⟨keeper, by rw [if_neg hne, hkeeper]⟩
    · rintro ⟨keeper, hkeeper⟩
      split at hkeeper
      · exact .inl (Option.some.inj hkeeper).symm
      · exact .inr ⟨keeper, hkeeper⟩
  · intro first second other hfirst hsecond
    rw [Function.update_apply] at hfirst hsecond
    split at hfirst <;> split at hsecond
    · rename_i hsame hsame'
      exact hsame.trans hsame'.symm
    · cases hfirst
      exact absurd hsecond (hfree second)
    · cases hsecond
      exact absurd hfirst (hfree first)
    · exact howned.injective first second other hfirst hsecond

end Custody

end treenity.foundation
