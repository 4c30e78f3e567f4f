import SerialLink.Config.Stored
import SerialLink.Proofs.Varint

/-!
# Settings that are stored and loaded

The stored form of any settings is read back, whatever follows it, and nothing is read from a part
of it. Only settings of the current version that can be used are loaded, whatever the bytes are.

Writing and reading go through the fields in the same order. `stored_eq` writes the stored form as a
sum of fields, each of which `Reads` back by itself (`Proofs.Varint` for the words), and the bind
lemmas of `Reads` put them together in `parse?_stored` and `parse?_of_cutOff`. What `load` does with
settings that were read is `load_of_parse?`, one line for each of its outcomes.
-/

namespace SerialLink.Config

/-! ## Writing -/

/-- The stored form, field by field, as `parse?` reads it. -/
theorem stored_eq (c : Config) :
    c.stored = [c.version] ++ ([flagByte c.transport] ++ ([c.window] ++
      (Varint.encode c.retransmitTimeout ++ ([c.maxRetransmits] ++
        (Varint.encode c.ackInterval ++ (Varint.encode c.idleTimeout ++ [])))))) := by
  simp [stored]

theorem length_stored_le (c : Config) : c.stored.length ≤ maxStoredLength := by
  have hretransmit := Varint.length_encode_le c.retransmitTimeout
  have hack := Varint.length_encode_le c.ackInterval
  have hidle := Varint.length_encode_le c.idleTimeout
  simp only [stored, List.length_cons, List.length_append]
  simp only [Varint.maxLength] at hretransmit hack hidle
  simp only [maxStoredLength]
  omega

theorem store?_eq (c : Config) (size : Nat) :
    c.store? size = if c.stored.length ≤ size then some c.stored else none := by
  rw [store?, OutBuffer.putAll_eq]
  simp only [OutBuffer.zeroed, OutBuffer.ofList, List.length_replicate, List.nil_append,
    Bool.false_or, decide_eq_true_eq]
  split
  · next hfull => rw [if_neg (Nat.not_le.mpr hfull)]
  · next hroom =>
    have hle := Nat.le_of_not_lt hroom
    rw [if_pos hle, List.take_of_length_le hle]

/-! ## Reading -/

theorem reads_byte (b : UInt8) : Reads readByte [b] b where
  whole := fun _ => rfl
  cut := by
    rintro part ⟨c, rest, h⟩
    cases part with
    | nil => rfl
    | cons d part => exact absurd h (by simp)

theorem reads_flag (flag : Bool) : Reads readFlag [flagByte flag] flag where
  whole := by
    intro rest
    cases flag <;> rfl
  cut := by
    rintro part ⟨c, rest, h⟩
    cases part with
    | nil => rfl
    | cons d part => exact absurd h (by simp)

/-- **Stored settings are read back** by `parse?`, whatever their values are and whatever follows
them. -/
theorem parse?_stored (c : Config) (behind : List UInt8) :
    parse? (c.stored ++ behind) = some c := by
  rw [stored_eq]
  simp only [List.append_assoc]
  unfold parse?
  simp only [Option.bind_eq_bind, (reads_byte _).bind_whole, (reads_flag _).bind_whole,
    (Varint.reads_encode _).bind_whole]
  rfl

/-- **Nothing is read from a part of the stored form.** -/
theorem parse?_of_cutOff {c : Config} {part : List UInt8} (h : CutOff part c.stored) :
    parse? part = none := by
  rw [stored_eq] at h
  -- The part ends within one of the fields; those before it are read.
  refine (reads_byte c.version).bind_cut h fun part h => ?_
  refine (reads_flag c.transport).bind_cut h fun part h => ?_
  refine (reads_byte c.window).bind_cut h fun part h => ?_
  refine (Varint.reads_encode c.retransmitTimeout).bind_cut h fun part h => ?_
  refine (reads_byte c.maxRetransmits).bind_cut h fun part h => ?_
  refine (Varint.reads_encode c.ackInterval).bind_cut h fun part h => ?_
  refine (Varint.reads_encode c.idleTimeout).bind_cut h fun part h => ?_
  exact absurd h (not_cutOff_nil part)

/-! ## Loading -/

theorem load_of_parse? {bytes : List UInt8} {c : Config} (h : parse? bytes = some c) :
    (c.version ≠ currentVersion → load bytes = .error .version) ∧
      (c.version = currentVersion →
        (c.validate = .ok () → load bytes = .ok c) ∧
          ∀ e, c.validate = .error e → load bytes = .error (.invalid e)) := by
  unfold load
  simp only [h]
  refine ⟨fun hversion => by rw [if_pos hversion], fun hversion => ?_⟩
  rw [if_neg (not_not_intro hversion)]
  constructor
  · intro hvalid
    rw [hvalid]
  · intro e hinvalid
    rw [hinvalid]

/-- **What is loaded can be used**, by `validate`, whatever the bytes are. -/
theorem usable_of_load {bytes : List UInt8} {c : Config} (h : load bytes = .ok c) :
    c.version = currentVersion ∧ c.validate = .ok () := by
  cases hparse : parse? bytes with
  | none => simp [load, hparse] at h
  | some read =>
    -- Of the outcomes that `load` has then, only one is not an error.
    obtain ⟨hother, hcurrent⟩ := load_of_parse? hparse
    by_cases hversion : read.version = currentVersion
    · obtain ⟨hok, herror⟩ := hcurrent hversion
      cases hvalid : read.validate with
      | ok =>
        obtain rfl := Except.ok.inj ((hok hvalid).symm.trans h)
        exact ⟨hversion, hvalid⟩
      | error e => exact absurd ((herror e hvalid).symm.trans h) (by simp)
    · exact absurd ((hother hversion).symm.trans h) (by simp)

/-- **Settings survive storage, and damaged ones are not used.** Any settings can be written where
there is space for their stored form, which is never long. Behind it may stand anything: what is
loaded are the same settings, if they are of the current version and can be used; else the version
is reported, or if it is the current one, what the settings cannot be used for. A part of the form
is malformed. And nothing else is ever loaded, from whatever bytes, than what can be used. -/
theorem settings_survive_storage (c : Config) :
    (∀ size, c.store? size = if c.stored.length ≤ size then some c.stored else none) ∧
      c.stored.length ≤ maxStoredLength ∧
      (∀ behind : List UInt8,
        (c.version ≠ currentVersion → load (c.stored ++ behind) = .error .version) ∧
        (c.version = currentVersion →
          (c.validate = .ok () → load (c.stored ++ behind) = .ok c) ∧
          ∀ e, c.validate = .error e → load (c.stored ++ behind) = .error (.invalid e))) ∧
      (∀ part, part <+: c.stored → part ≠ c.stored → load part = .error .malformed) ∧
      ∀ bytes d, load bytes = .ok d → d.version = currentVersion ∧ d.validate = .ok () := by
  refine ⟨c.store?_eq, c.length_stored_le, ?_, ?_, fun bytes d => usable_of_load⟩
  · exact fun behind => load_of_parse? (c.parse?_stored behind)
  · intro part hpart hne
    have hnone := parse?_of_cutOff (cutOff_iff.mpr ⟨hpart, hne⟩)
    simp [load, hnone]

/-- Settings whose times take one byte, two and five. -/
def slow : Config :=
  { window := 4, retransmitTimeout := 300, ackInterval := 1, idleTimeout := maxTimeout }

theorem settings_survive_storage_slow :
    slow.stored.length = 12 ∧
      slow.store? 11 = none ∧
      slow.store? 12 = some slow.stored ∧
      load (slow.stored ++ [9, 9]) = .ok slow ∧
      load (slow.stored.take 11) = .error .malformed ∧
      load ({ slow with version := 2, window := 0 } : Config).stored = .error .version ∧
      load ({ slow with window := 17 } : Config).stored = .error (.invalid .window) ∧
      slow.version = currentVersion ∧ slow.validate = .ok () := by
  have hlength : slow.stored.length = 12 := by decide
  have hother : ({ slow with version := 2, window := 0 } : Config).version ≠ currentVersion := by
    decide
  obtain ⟨hstore, -, hload, hpart, husable⟩ := settings_survive_storage slow
  have hread : load (slow.stored ++ [9, 9]) = .ok slow := ((hload [9, 9]).2 rfl).1 rfl
  refine ⟨hlength, ?_, ?_, hread, ?_, ?_, ?_, husable _ _ hread⟩
  · rw [hstore, hlength]
    rfl
  · rw [hstore, hlength]
    rfl
  · apply hpart _ (List.take_prefix ..)
    intro heq
    have hcut := congrArg List.length heq
    rw [List.length_take, hlength] at hcut
    exact absurd hcut (by decide)
  · obtain ⟨-, -, hload', -, -⟩ :=
      settings_survive_storage { slow with version := 2, window := 0 }
    simpa using (hload' []).1 hother
  · obtain ⟨-, -, hload', -, -⟩ := settings_survive_storage { slow with window := 17 }
    simpa using ((hload' []).2 rfl).2 .window rfl

end SerialLink.Config
