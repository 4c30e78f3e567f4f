import SerialLink.Proofs.Transport.Fate

/-!
# What the application is told

An operation calls the application to hand over a frame or to report that one was given up. A
transport hands over nothing but the data frame that arrives; all its other operations only report.

`callbacks` are the events that the application sees, and `applications` the application frames
among them. `Effect.of_delivered` says which operations hand a frame over, by the cases of `Effect`,
so that for all others `callbacks_of_undelivered` turns what is seen into the `failures` of
`Proofs.Transport.Fate`. `Proofs.Transport.Exhaustion` reads the reports of a tick this way, and
`Proofs.Endpoint.Bypass` separates what the decoder hands over from what the transport does.
-/

namespace SerialLink

variable {σ ε : Type}

/-! ## Calls of the application -/

/-- An application frame, with a `FrameId.app`, which no transport looks at. -/
def Frame.isApp (f : Frame) : Bool :=
  match f.id with
  | .app _ => true
  | _ => false

theorem Frame.isApp_of_app {f : Frame} {a : UInt8} (hid : f.id = .app a) : f.isApp = true := by
  rw [isApp, hid]

theorem Frame.isApp_of_other {f : Frame} (hid : ∀ a, f.id ≠ .app a) : f.isApp = false := by
  unfold isApp
  split
  · next a ha => exact absurd ha (hid a)
  · rfl

namespace Event

/-- Whether the application is called. -/
def isCallback : Event ε → Bool
  | .delivered _ | .abandoned _ => true
  | .attempted _ _ => false

/-- The application frame that is handed over. -/
def application? : Event ε → Option Frame
  | .delivered f => if f.isApp then some f else none
  | .attempted _ _ | .abandoned _ => none

end Event

/-- The calls of the application, in order. -/
def callbacks (events : List (Event ε)) : List (Event ε) := events.filter Event.isCallback

/-- The application frames handed over, in order. -/
def applications (events : List (Event ε)) : List Frame := events.filterMap Event.application?

section calls

variable {events : List (Event ε)}

@[simp]
theorem callbacks_append (events events' : List (Event ε)) :
    callbacks (events ++ events') = callbacks events ++ callbacks events' :=
  List.filter_append ..

@[simp]
theorem applications_append (events events' : List (Event ε)) :
    applications (events ++ events') = applications events ++ applications events' :=
  List.filterMap_append

/-- Where nothing is `delivered`, the `callbacks` are the failures reported. -/
theorem callbacks_of_undelivered (h : ∀ f, Event.delivered f ∉ events) :
    callbacks events = (failures events).map .abandoned := by
  induction events with
  | nil => rfl
  | cons x rest ih =>
    have hrest := ih fun f hf => h f (List.mem_cons_of_mem x hf)
    unfold callbacks failures at hrest ⊢
    cases x with
    | attempted f r => exact hrest
    | delivered f => exact absurd (List.mem_cons_self ..) (h f)
    | abandoned failure => exact congrArg (Event.abandoned failure :: ·) hrest

theorem applications_eq_nil (h : ∀ f, Event.delivered f ∈ events → f.isApp = false) :
    applications events = [] := by
  apply List.filterMap_eq_nil_iff.mpr
  intro x hx
  cases x with
  | attempted | abandoned => rfl
  | delivered f => simp [Event.application?, h f hx]

end calls

namespace Transport

/-! ## What a transport hands over -/

theorem Notice.not_delivered {events : List (Event ε)} {pending : Bool} (h : Notice events pending)
    (f : Frame) : Event.delivered f ∉ events := by
  cases h <;> simp

theorem Repeat.not_delivered {expected : UInt8} {events : List (Event ε)}
    (h : Repeat expected events) (f : Frame) : Event.delivered f ∉ events := by
  cases h <;> simp

theorem not_delivered_flush {t : Transport} {flush : List (Event ε)}
    (h : if t.resetPending then Notice flush false else flush = []) (f : Frame) :
    Event.delivered f ∉ flush := by
  split at h
  · exact h.not_delivered f
  · simp [h]

variable [ByteSink σ ε] {t t' : Transport}

/-- A `sweep` over the queue hands over nothing. -/
theorem not_delivered_sweep (policy : RetryPolicy) (now : UInt32) (stats : TransportStats)
    (sink : σ) (q : List Entry) (f : Frame) :
    Event.delivered f ∉ (sweep policy now stats sink q).events := by
  obtain ⟨-, -, -, h, -⟩ := sweep_rule (q := q) policy now
    (fun _ _ events => Event.delivered f ∉ events) (fun _ h => h)
    (fun n _ h => by simpa using h) (fun failure h => by simpa using h) stats sink (by simp)
  exact h

/-- **A transport hands over a data frame when it arrives, and nothing else.** -/
theorem Effect.of_delivered {op : Operation σ} {events : List (Event ε)} {f : Frame}
    (he : t.Effect op events t') (hf : Event.delivered f ∈ events) :
    f.isApp = false ∧ ∃ now sink, op = .receive now f sink := by
  -- Only the arrival of the frame that is expected has such an event.
  cases he with
  | refused | queued | heard | passed | spurious | acked | unexpected =>
    simp at hf
  | blocked _ hnotice _ => exact absurd hf (hnotice.not_delivered f)
  | swept hflush hswept _ hacks _ =>
    obtain ⟨stats, sink, rfl⟩ := hswept
    simp [not_delivered_flush hflush, not_delivered_sweep, hacks.not_delivered] at hf
  | gaveUp hflush hswept _ hnotice hacks _ =>
    obtain ⟨stats, sink, rfl⟩ := hswept
    simp [not_delivered_flush hflush, not_delivered_sweep, hnotice.not_delivered,
      hacks.not_delivered] at hf
  | @delivered now g sink id r t' hid hseq hu =>
    have hfg : f = g := by simpa using hf
    exact ⟨hfg ▸ Frame.isApp_of_other (by simp [hid]), now, sink, by rw [hfg]⟩
  | told => simp at hf
  | dropped => simp at hf
  | reset hnotice _ => simp [hnotice.not_delivered] at hf

end Transport

end SerialLink
