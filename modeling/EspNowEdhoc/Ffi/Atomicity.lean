import EspNowEdhoc.Ffi.Session

/-!
# What one FFI call can do to the session

* `Handshake`: the four handshake calls, each with the role and phase it needs and the phase it
  leads to.
* **`handshake_outcome`**: a handshake call is refused and changes nothing, or fails and leaves the
  failed session of its role, or takes its role from its phase to the next one.
* **`ffi_error_atomicity`**: errors leave the session and the output buffer alone.
-/

namespace EspNowEdhoc

variable {L : Lakers}

/-- The phases of both roles. -/
inductive Phase
  | start | waitM2 | waitM3 | done | failed
  deriving DecidableEq, Repr

def InitiatorPhase.kind : InitiatorPhase L → Phase
  | .start _ => .start
  | .waitM2 _ => .waitM2
  | .done _ => .done
  | .failed => .failed

def ResponderPhase.kind : ResponderPhase L → Phase
  | .start _ => .start
  | .waitM3 _ => .waitM3
  | .done _ => .done
  | .failed => .failed

namespace Session

def role? : Session L → Option Role
  | .empty => none
  | .initiator _ => some .initiator
  | .responder _ => some .responder

def phase? : Session L → Option Phase
  | .empty => none
  | .initiator s => some s.phase.kind
  | .responder s => some s.phase.kind

def exporterContext? : Session L → Option ExporterContext
  | .empty => none
  | .initiator s => some s.exporterContext
  | .responder s => some s.exporterContext

/-- The completed Lakers session, in `Done`. -/
def done? : Session L → Option L.Done
  | .initiator ⟨.done done, _⟩ => some done
  | .responder ⟨.done done, _⟩ => some done
  | _ => none

/-- The session `protocol_failed` stores. -/
def failedOf (role : Role) : Session L := (protocolFailed role.code).2

theorem role?_failedOf (role : Role) : (failedOf role : Session L).role? = some role := by
  cases role <;> rfl

theorem phase?_failedOf (role : Role) : (failedOf role : Session L).phase? = some .failed := by
  cases role <;> rfl

theorem exporterContext?_failedOf (role : Role) :
    (failedOf role : Session L).exporterContext? = some (Bytes.zeroed 27) := by
  cases role <;> rfl

theorem ne_empty_of_role? {s : Session L} {role : Role} (h : s.role? = some role) : s ≠ .empty := by
  rintro rfl
  cases h

theorem done?_isSome (s : Session L) : s.done?.isSome ↔ s.phase? = some .done := by
  rcases s with _ | ⟨phase, ctx⟩ | ⟨phase, ctx⟩
  · simp [done?, phase?]
  · cases phase <;> simp [done?, phase?, InitiatorPhase.kind]
  · cases phase <;> simp [done?, phase?, ResponderPhase.kind]

theorem phase?_of_done? {s : Session L} {done : L.Done} (h : s.done? = some done) :
    s.phase? = some .done := (done?_isSome s).mp (by rw [h]; rfl)

end Session

/-! ## The four handshake calls -/

/-- The handshake calls. -/
inductive Handshake
  | makeMessage1 | processMessage1 | processMessage2 | processMessage3
  deriving DecidableEq, Repr

namespace Handshake

/-- The role that makes the call. -/
def role : Handshake → Role
  | .makeMessage1 | .processMessage2 => .initiator
  | .processMessage1 | .processMessage3 => .responder

/-- The phase the call needs. -/
def source : Handshake → Phase
  | .makeMessage1 | .processMessage1 => .start
  | .processMessage2 => .waitM2
  | .processMessage3 => .waitM3

/-- The phase the call leads to. -/
def target : Handshake → Phase
  | .makeMessage1 => .waitM2
  | .processMessage1 => .waitM3
  | .processMessage2 | .processMessage3 => .done

end Handshake

namespace Call

def handshake? : Call L → Option Handshake
  | .makeMessage1 .. => some .makeMessage1
  | .processMessage1 .. => some .processMessage1
  | .processMessage2 .. => some .processMessage2
  | .processMessage3 .. => some .processMessage3
  | _ => none

/-- The caller's output buffer; `none` for a null pointer and for a call without one. -/
def output : Call L → Option (List UInt8)
  | .makeMessage1 _ output _ _ => output
  | .processMessage1 _ _ _ output _ _ => output
  | .processMessage2 _ _ output _ _ => output
  | .exportEspnowLmk output => output
  | _ => none

/-- The caller's `*output_length`. -/
def outputLength : Call L → Option ℕ
  | .makeMessage1 _ _ _ length => length
  | .processMessage1 _ _ _ _ _ length => length
  | .processMessage2 _ _ _ _ length => length
  | _ => none

/-- The call is a `session_init`. -/
def IsSessionInit : Call L → Prop
  | .sessionInit .. => True
  | _ => False

end Call

/-- What a failed call leaves in `*output_length` when neither output pointer is null. -/
def ErrorLength (output : Option (List UInt8)) (length : Option ℕ) (r : FfiRet L) : Prop :=
  output.isSome → length.isSome →
    r.outputLength = some (if r.status = .bufferTooSmall then maxEdhocMessageLen else 0)

/-- The three ways a handshake call on the session `s` can end; `output` and `length` are the
caller's buffer and length. -/
inductive HandshakeOutcome (h : Handshake) (output : Option (List UInt8)) (length : Option ℕ)
    (s : Session L) (r : FfiRet L) : Prop
  | refused (hstatus : r.status = .invalidArgument ∨ r.status = .bufferTooSmall ∨
        r.status = .wrongState ∧ ¬ (s.role? = some h.role ∧ s.phase? = some h.source))
      (hsession : r.session = s) (houtput : r.output = output)
      (hlength : ErrorLength output length r)
  | failed (hstatus : r.status = .protocolError) (hrole : s.role? = some h.role)
      (hphase : s.phase? = some h.source) (hsession : r.session = .failedOf h.role)
      (houtput : r.output = output) (hlength : ErrorLength output length r)
  | advanced (hstatus : r.status = .ok) (hrole : s.role? = some h.role)
      (hphase : s.phase? = some h.source) (hrole' : r.session.role? = some h.role)
      (hphase' : r.session.phase? = some h.target)
      (hctx : r.session.exporterContext? = s.exporterContext?)

section Outcomes

variable {output : Option (List UInt8)} {capacity : ℕ} {length length' : Option ℕ}
  {status : Status}

theorem prepareOutput_error (h : prepareOutput output capacity length = (.error status, length')) :
    (status = .invalidArgument ∨ status = .bufferTooSmall) ∧ (output.isSome → length.isSome →
      length' = some (if status = .bufferTooSmall then maxEdhocMessageLen else 0)) := by
  unfold prepareOutput at h
  split at h
  · split at h <;> cases h
    exact ⟨.inr rfl, fun _ _ => rfl⟩
  · next hnull =>
    cases h
    refine ⟨.inl rfl, fun ho hl => ?_⟩
    obtain ⟨buffer, rfl⟩ := Option.isSome_iff_exists.mp ho
    obtain ⟨n, rfl⟩ := Option.isSome_iff_exists.mp hl
    exact absurd rfl (hnull buffer n rfl)

theorem prepareOutput_ok (h : prepareOutput output capacity length = (.ok (), length')) :
    length' = some 0 := by
  unfold prepareOutput at h
  split at h
  · split at h <;> cases h
    rfl
  · cases h

theorem inputSlice_error {input : Option (List UInt8)} {n : ℕ}
    (h : inputSlice input n = .error status) : status = .invalidArgument := by
  unfold inputSlice at h
  split at h
  · cases h; rfl
  · split at h <;> cases h
    rfl

variable (output capacity length) (s : Session L)

theorem makeMessage1_outcome (rng : L.Rng) : HandshakeOutcome .makeMessage1 output length s
    (lakersEdhocMakeMessage1 rng output capacity length s) := by
  simp only [lakersEdhocMakeMessage1, memReplace]
  split
  · next hp =>
    obtain ⟨hstatus, hlength⟩ := prepareOutput_error hp
    exact .refused (hstatus.imp_right .inl) rfl rfl hlength
  next hp =>
  have hl := prepareOutput_ok hp
  rcases s with _ | ⟨phase, ctx⟩ | session
  · exact .refused (.inr (.inr ⟨rfl, fun h => nomatch h.1⟩)) rfl rfl fun _ _ => hl
  · cases phase with
    | start initiator =>
      dsimp only
      split
      · exact .advanced rfl rfl rfl rfl rfl rfl
      · exact .failed rfl rfl rfl rfl rfl fun _ _ => hl
    | waitM2 | done | failed =>
      exact .refused (.inr (.inr ⟨rfl, fun h => nomatch h.2⟩)) rfl rfl fun _ _ => hl
  · exact .refused (.inr (.inr ⟨rfl, fun h => nomatch h.1⟩)) rfl rfl fun _ _ => hl

theorem processMessage1_outcome (rng : L.Rng) (input : Option (List UInt8)) (inputLength : ℕ) :
    HandshakeOutcome .processMessage1 output length s
      (lakersEdhocProcessMessage1 rng input inputLength output capacity length s) := by
  simp only [lakersEdhocProcessMessage1, memReplace]
  split
  · next hp =>
    obtain ⟨hstatus, hlength⟩ := prepareOutput_error hp
    exact .refused (hstatus.imp_right .inl) rfl rfl hlength
  next hp =>
  have hl := prepareOutput_ok hp
  split
  · next hi =>
    obtain rfl := inputSlice_error hi
    exact .refused (.inl rfl) rfl rfl fun _ _ => hl
  split
  · exact .refused (.inl rfl) rfl rfl fun _ _ => hl
  rcases s with _ | session | ⟨phase, ctx⟩
  · exact .refused (.inr (.inr ⟨rfl, fun h => nomatch h.1⟩)) rfl rfl fun _ _ => hl
  · exact .refused (.inr (.inr ⟨rfl, fun h => nomatch h.1⟩)) rfl rfl fun _ _ => hl
  · cases phase with
    | start responder =>
      dsimp only
      split
      · exact .advanced rfl rfl rfl rfl rfl rfl
      · exact .failed rfl rfl rfl rfl rfl fun _ _ => hl
    | waitM3 | done | failed =>
      exact .refused (.inr (.inr ⟨rfl, fun h => nomatch h.2⟩)) rfl rfl fun _ _ => hl

theorem processMessage2_outcome (input : Option (List UInt8)) (inputLength : ℕ) :
    HandshakeOutcome .processMessage2 output length s
      (lakersEdhocProcessMessage2 input inputLength output capacity length s) := by
  simp only [lakersEdhocProcessMessage2, memReplace]
  split
  · next hp =>
    obtain ⟨hstatus, hlength⟩ := prepareOutput_error hp
    exact .refused (hstatus.imp_right .inl) rfl rfl hlength
  next hp =>
  have hl := prepareOutput_ok hp
  split
  · next hi =>
    obtain rfl := inputSlice_error hi
    exact .refused (.inl rfl) rfl rfl fun _ _ => hl
  split
  · exact .refused (.inl rfl) rfl rfl fun _ _ => hl
  rcases s with _ | ⟨phase, ctx⟩ | session
  · exact .refused (.inr (.inr ⟨rfl, fun h => nomatch h.1⟩)) rfl rfl fun _ _ => hl
  · cases phase with
    | waitM2 waitM2 =>
      dsimp only
      split
      · exact .advanced rfl rfl rfl rfl rfl rfl
      · exact .failed rfl rfl rfl rfl rfl fun _ _ => hl
    | start | done | failed =>
      exact .refused (.inr (.inr ⟨rfl, fun h => nomatch h.2⟩)) rfl rfl fun _ _ => hl
  · exact .refused (.inr (.inr ⟨rfl, fun h => nomatch h.1⟩)) rfl rfl fun _ _ => hl

theorem processMessage3_outcome (input : Option (List UInt8)) (inputLength : ℕ) :
    HandshakeOutcome .processMessage3 none none s
      (lakersEdhocProcessMessage3 input inputLength s) := by
  simp only [lakersEdhocProcessMessage3, memReplace]
  split
  · next hi => exact .refused (.inl (inputSlice_error hi)) rfl rfl nofun
  split
  · exact .refused (.inl rfl) rfl rfl nofun
  rcases s with _ | session | ⟨phase, ctx⟩
  · exact .refused (.inr (.inr ⟨rfl, fun h => nomatch h.1⟩)) rfl rfl nofun
  · exact .refused (.inr (.inr ⟨rfl, fun h => nomatch h.1⟩)) rfl rfl nofun
  · cases phase with
    | waitM3 waitM3 =>
      dsimp only
      split
      · exact .advanced rfl rfl rfl rfl rfl rfl
      · exact .failed rfl rfl rfl rfl rfl nofun
    | start | done | failed =>
      exact .refused (.inr (.inr ⟨rfl, fun h => nomatch h.2⟩)) rfl rfl nofun

end Outcomes

/-- **What a handshake call can do.** -/
theorem handshake_outcome (c : Call L) {h : Handshake} (hc : c.handshake? = some h)
    (s : Session L) : HandshakeOutcome h c.output c.outputLength s (c.exec s) := by
  cases c <;> cases hc
  · exact makeMessage1_outcome ..
  · exact processMessage1_outcome ..
  · exact processMessage2_outcome ..
  · exact processMessage3_outcome ..

/-! ## The other two calls -/

theorem createSession_ok {rng : L.Rng} {code : UInt8} {own peer : List UInt8} {channel : UInt8}
    {s : Session L} (h : createSession rng code own peer channel = .ok s) :
    ∃ role : Role, code = role.code ∧ s.role? = some role ∧ s.phase? = some .start := by
  unfold createSession at h
  split at h
  · cases h
  dsimp only at h
  split at h
  · next hcode =>
    split at h <;> cases h
    exact ⟨.initiator, hcode, rfl, rfl⟩
  split at h
  · next hcode =>
    split at h <;> cases h
    exact ⟨.responder, hcode, rfl, rfl⟩
  · cases h

theorem createSession_error {rng : L.Rng} {code : UInt8} {own peer : List UInt8} {channel : UInt8}
    {status : Status} (h : createSession rng code own peer channel = .error status) :
    status = .invalidArgument ∨ status = .credentialError := by
  unfold createSession at h
  split at h
  · cases h; exact .inl rfl
  dsimp only at h
  split at h
  · split at h <;> cases h
    exact .inr rfl
  split at h
  · split at h <;> cases h
    exact .inr rfl
  · cases h; exact .inl rfl

/-- A `session_init` stores a fresh session of its role, or changes nothing. -/
theorem sessionInit_outcome (rng : L.Rng) (code : UInt8) (own peer : Option Mac) (channel : UInt8)
    (s : Session L) : let r := lakersEdhocSessionInit rng code own peer channel s
    (r.status = .ok ∧ ∃ role : Role, code = role.code ∧ r.session.role? = some role ∧
      r.session.phase? = some .start) ∨
    (r.status = .invalidArgument ∨ r.status = .credentialError) ∧ r.session = s ∧
      r.output = none := by
  dsimp only
  unfold lakersEdhocSessionInit
  split
  · split
    · next hs => exact .inl ⟨rfl, createSession_ok hs⟩
    · next hs => exact .inr ⟨createSession_error hs, rfl, rfl⟩
  · exact .inr ⟨.inl rfl, rfl, rfl⟩

theorem exportEspnowLmk_outcome (output : Option (List UInt8)) (s : Session L) :
    let r := lakersEdhocExportEspnowLmk output s
    r.session = s ∧ (r.status = .ok ∧ output.isSome ∧ s.phase? = some .done ∨
      r.status = .invalidArgument ∧ output = none ∧ r.output = output ∨
      r.status = .wrongState ∧ s.phase? ≠ some .done ∧ r.output = output) := by
  dsimp only
  cases output with
  | none => exact ⟨rfl, .inr (.inl ⟨rfl, rfl, rfl⟩)⟩
  | some buffer =>
    rcases s with _ | ⟨phase, ctx⟩ | ⟨phase, ctx⟩
    · exact ⟨rfl, .inr (.inr ⟨rfl, nofun, rfl⟩)⟩
    · cases phase with
      | done => exact ⟨rfl, .inl ⟨rfl, rfl, rfl⟩⟩
      | start | waitM2 | failed => exact ⟨rfl, .inr (.inr ⟨rfl, nofun, rfl⟩)⟩
    · cases phase with
      | done => exact ⟨rfl, .inl ⟨rfl, rfl, rfl⟩⟩
      | start | waitM3 | failed => exact ⟨rfl, .inr (.inr ⟨rfl, nofun, rfl⟩)⟩

theorem exportEspnowLmk_ok_iff (buffer : List UInt8) (s : Session L) :
    (lakersEdhocExportEspnowLmk (some buffer) s).status = .ok ↔ s.phase? = some .done := by
  rcases (exportEspnowLmk_outcome (some buffer) s).2 with h | h | h
  · exact iff_of_true h.1 h.2.2
  · cases h.2.1
  · exact iff_of_false (by rw [h.1]; nofun) h.2.1

/-! ## Errors are atomic -/

/-- **Errors are atomic.** A call that reports a refusal leaves the stored session and the output
buffer alone; a protocol error leaves the failed session of the same role; an advance keeps role
and exporter context; no call empties the session; and `*output_length` says what went wrong. -/
theorem ffi_error_atomicity (s : Session L) (c : Call L) :
    let r := c.exec s
    ((r.status = .invalidArgument ∨ r.status = .wrongState ∨ r.status = .bufferTooSmall ∨
        r.status = .credentialError) → r.session = s ∧ r.output = c.output) ∧
    (r.status = .protocolError → r.session.role? = s.role? ∧ s.role?.isSome ∧
      r.session.phase? = some .failed ∧ r.session.exporterContext? = some (Bytes.zeroed 27) ∧
      r.output = c.output) ∧
    (r.status = .ok → ¬ c.IsSessionInit →
      r.session.role? = s.role? ∧ r.session.exporterContext? = s.exporterContext?) ∧
    (s ≠ .empty → r.session ≠ .empty) ∧
    (∀ buffer length, c.output = some buffer → c.outputLength = some length → r.status ≠ .ok →
      r.outputLength = some (if r.status = .bufferTooSmall then 192 else 0)) := by
  dsimp only
  rcases hc : c.handshake? with _ | h
  · cases c with
    | makeMessage1 | processMessage1 | processMessage2 | processMessage3 => cases hc
    | sessionInit rng code own peer channel =>
      rcases sessionInit_outcome rng code own peer channel s with
        ⟨hok, role, -, hrole, -⟩ | ⟨hstatus, hsession, houtput⟩
      · simp only [Call.exec, hok]
        exact ⟨by simp, nofun, fun _ h => absurd trivial h,
          fun _ => Session.ne_empty_of_role? hrole, nofun⟩
      · simp only [Call.exec]
        refine ⟨fun _ => ⟨hsession, houtput⟩, fun h => ?_,
          fun _ _ => ⟨by rw [hsession], by rw [hsession]⟩, fun hs => by rwa [hsession], nofun⟩
        rcases hstatus with h' | h' <;> rw [h'] at h <;> cases h
    | exportEspnowLmk output =>
      obtain ⟨hsession, hstatus⟩ := exportEspnowLmk_outcome output s
      have hne (hs : s ≠ .empty) : (lakersEdhocExportEspnowLmk output s).session ≠ .empty := by
        rwa [hsession]
      simp only [Call.exec]
      rcases hstatus with ⟨hok, -, -⟩ | ⟨hst, -, ho⟩ | ⟨hst, -, ho⟩
      · simp only [hok]
        exact ⟨by simp, nofun, fun _ _ => ⟨by rw [hsession], by rw [hsession]⟩, hne, nofun⟩
      · simp only [hst]
        exact ⟨fun _ => ⟨hsession, ho⟩, nofun, nofun, hne, nofun⟩
      · simp only [hst]
        exact ⟨fun _ => ⟨hsession, ho⟩, nofun, nofun, hne, nofun⟩
  · cases handshake_outcome c hc s with
    | refused hstatus hsession houtput hlength =>
      refine ⟨fun _ => ⟨hsession, houtput⟩, fun h => ?_, fun h => ?_, fun hs => by rwa [hsession],
        fun b n hb hn _ => hlength (by rw [hb]; rfl) (by rw [hn]; rfl)⟩
      · rcases hstatus with h' | h' | ⟨h', -⟩ <;> rw [h'] at h <;> cases h
      · rcases hstatus with h' | h' | ⟨h', -⟩ <;> rw [h'] at h <;> cases h
    | failed hstatus hrole hphase hsession houtput hlength =>
      refine ⟨by simp [hstatus], fun _ => ⟨?_, ?_, ?_, ?_, houtput⟩, by simp [hstatus], fun _ => ?_,
        fun b n hb hn _ => hlength (by rw [hb]; rfl) (by rw [hn]; rfl)⟩
      · rw [hsession, Session.role?_failedOf, hrole]
      · rw [hrole]; rfl
      · rw [hsession, Session.phase?_failedOf]
      · rw [hsession, Session.exporterContext?_failedOf]
      · exact Session.ne_empty_of_role? (by rw [hsession, Session.role?_failedOf])
    | advanced hstatus hrole hphase hrole' hphase' hctx =>
      exact ⟨by simp [hstatus], by simp [hstatus], fun _ _ => ⟨hrole'.trans hrole.symm, hctx⟩,
        fun _ => Session.ne_empty_of_role? hrole', fun _ _ _ _ h => absurd hstatus h⟩

end EspNowEdhoc
