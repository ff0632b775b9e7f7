import EspNowEdhoc.Ffi.Atomicity
import EspNowEdhoc.Lib.Runs
import EspNowEdhoc.Lib.Script

/-!
# The call language of the FFI

A session is a follower of the handshake script of its role: the phase says which calls of the
script are left, `Failed` that the follower has stopped.

* `Recorded`: the stored session with all calls so far and what they returned; `sinceInit` cuts the
  record at the last successful `session_init`.
* `handshakeScript`, `remaining`, `Tracks`: the session against the record since its creation.
* **`call_language`**: the successful handshake calls since the last successful `session_init` are a
  prefix of the script of its role, none succeeds after a protocol error, and an export succeeds
  exactly after the whole script.
-/

namespace EspNowEdhoc

open Runs Script

variable {L : Lakers}

/-- The handshake calls of a role, in order. -/
def handshakeScript : Role → List Handshake
  | .initiator => [.makeMessage1, .processMessage2]
  | .responder => [.processMessage1, .processMessage3]

/-- The handshake calls a phase still leaves; `none` after a protocol error. -/
def remaining (role : Role) : Phase → Option (List Handshake)
  | .start => some (handshakeScript role)
  | .waitM2 | .waitM3 => some ((handshakeScript role).drop 1)
  | .done => some []
  | .failed => none

theorem remaining_source (h : Handshake) :
    ∃ rest, remaining h.role h.source = some (h :: rest) ∧
      remaining h.role h.target = some rest := by
  cases h <;> exact ⟨_, rfl, rfl⟩

theorem remaining_eq_nil {role : Role} {phase : Phase} :
    remaining role phase = some [] ↔ phase = .done := by
  cases role <;> cases phase <;> decide

theorem remaining_eq_none {role : Role} {phase : Phase} :
    remaining role phase = none ↔ phase = .failed := by
  cases role <;> cases phase <;> decide

/-! ## Recorded calls -/

variable (L) in
/-- The stored session, and all calls so far with their statuses. -/
structure Recorded where
  session : Session L
  log : List (Call L × Status)

namespace Recorded

def boot : Recorded L := ⟨.empty, []⟩

/-- Make one more call. -/
def call (r : Recorded L) (c : Call L) : Recorded L :=
  let ret := c.exec r.session
  ⟨ret.session, r.log ++ [(c, ret.status)]⟩

end Recorded

/-- The handshake calls of a record that returned `OK`. -/
def okHandshakes (log : List (Call L × Status)) : List Handshake :=
  log.filterMap fun x => if x.2 = .ok then x.1.handshake? else none

/-- One more entry of a record, cut at the last successful `session_init`. -/
def cutAtInit (acc : Option (UInt8 × List (Call L × Status))) (x : Call L × Status) :
    Option (UInt8 × List (Call L × Status)) :=
  match x with
  | (.sessionInit _ role _ _ _, .ok) => some (role, [])
  | x => acc.map fun p => (p.1, p.2 ++ [x])

/-- The role byte of the last `session_init` that returned `OK`, and the record after it. -/
def sinceInit (log : List (Call L × Status)) : Option (UInt8 × List (Call L × Status)) :=
  log.foldl cutAtInit none

theorem sinceInit_concat (log : List (Call L × Status)) (x : Call L × Status) :
    sinceInit (log ++ [x]) = cutAtInit (sinceInit log) x := by simp [sinceInit]

theorem okHandshakes_append (log log' : List (Call L × Status)) :
    okHandshakes (log ++ log') = okHandshakes log ++ okHandshakes log' := List.filterMap_append ..

theorem okHandshakes_ok {c : Call L} {h : Handshake} (hc : c.handshake? = some h) :
    okHandshakes [(c, .ok)] = [h] := by simp [okHandshakes, hc]

theorem okHandshakes_not_ok {c : Call L} {status : Status} (hs : status ≠ .ok) :
    okHandshakes [(c, status)] = [] := by simp [okHandshakes, hs]

theorem okHandshakes_other {c : Call L} (status : Status) (hc : c.handshake? = none) :
    okHandshakes [(c, status)] = [] := by simp [okHandshakes, hc]

theorem cutAtInit_of_not_init {c : Call L} (hc : ¬ c.IsSessionInit)
    (acc : Option (UInt8 × List (Call L × Status))) (status : Status) :
    cutAtInit acc (c, status) = acc.map fun p => (p.1, p.2 ++ [(c, status)]) := by
  cases c with
  | sessionInit => exact absurd trivial hc
  | makeMessage1 | processMessage1 | processMessage2 | processMessage3 | exportEspnowLmk => rfl

theorem cutAtInit_of_not_ok {c : Call L} {status : Status} (hs : status ≠ .ok)
    (acc : Option (UInt8 × List (Call L × Status))) :
    cutAtInit acc (c, status) = acc.map fun p => (p.1, p.2 ++ [(c, status)]) := by
  cases c <;> cases status <;> first | rfl | exact absurd rfl hs

/-! ## The session against its record -/

/-- No handshake call succeeds after a protocol error. -/
def NoneAfterError (log : List (Call L × Status)) : Prop :=
  ∀ p c q, log = p ++ (c, .protocolError) :: q → okHandshakes q = []

/-- The session `s` after the record `post` since its creation for `role`. -/
structure Tracks (role : Role) (s : Session L) (post : List (Call L × Status)) : Prop where
  role_eq : s.role? = some role
  phase : ∃ phase, s.phase? = some phase ∧
    Follows (handshakeScript role) (okHandshakes post) (remaining role phase) ∧
    (phase = .failed → okHandshakes post ≠ handshakeScript role) ∧
    ∀ c, (c, .protocolError) ∈ post → phase = .failed
  noneAfterError : NoneAfterError post

theorem NoneAfterError.concat {log : List (Call L × Status)} (h : NoneAfterError log)
    {x : Call L × Status} (hx : (∃ c, (c, .protocolError) ∈ log) → okHandshakes [x] = []) :
    NoneAfterError (log ++ [x]) := by
  intro p c q he
  rcases List.eq_nil_or_concat q with rfl | ⟨q', y, rfl⟩
  · rfl
  · rw [List.concat_eq_append, ← List.cons_append, ← List.append_assoc] at he
    obtain ⟨hlog, hxy⟩ := List.append_inj' he rfl
    cases hxy
    rw [List.concat_eq_append, okHandshakes_append, h p c q' hlog, hx ⟨c, by simp [hlog]⟩]
    rfl

theorem Tracks.start {role : Role} {s : Session L} (hr : s.role? = some role)
    (hp : s.phase? = some .start) : Tracks role s [] where
  role_eq := hr
  phase := ⟨.start, hp, .start, nofun, nofun⟩
  noneAfterError := by intro p c q h; simp at h

theorem Tracks.stay {role : Role} {s : Session L} {post : List (Call L × Status)}
    (h : Tracks role s post) {x : Call L × Status} (hx : okHandshakes [x] = [])
    (he : x.2 ≠ .protocolError) : Tracks role s (post ++ [x]) where
  role_eq := h.role_eq
  phase := by
    obtain ⟨phase, hp, hf, hne, herr⟩ := h.phase
    refine ⟨phase, hp, ?_, ?_, fun c hc => ?_⟩
    · rwa [okHandshakes_append, hx, List.append_nil]
    · rwa [okHandshakes_append, hx, List.append_nil]
    · rcases List.mem_append.mp hc with hc | hc
      · exact herr c hc
      · rw [List.mem_singleton] at hc
        subst hc
        exact absurd rfl he
  noneAfterError := h.noneAfterError.concat fun _ => hx

theorem Tracks.handshake {role : Role} {s : Session L} {post : List (Call L × Status)}
    (ht : Tracks role s post) {c : Call L} {h : Handshake} (hc : c.handshake? = some h) :
    Tracks role (c.exec s).session (post ++ [(c, (c.exec s).status)]) := by
  obtain ⟨phase, hp, hf, hne, herr⟩ := ht.phase
  cases handshake_outcome c hc s with
  | refused hstatus hsession _ _ =>
    have hst : (c.exec s).status ≠ .ok ∧ (c.exec s).status ≠ .protocolError := by
      rcases hstatus with h' | h' | ⟨h', -⟩ <;> rw [h'] <;> decide
    rw [hsession]
    exact ht.stay (okHandshakes_not_ok hst.1) hst.2
  | failed hstatus hrole hphase hsession _ _ =>
    obtain rfl : h.role = role := Option.some.inj (hrole.symm.trans ht.role_eq)
    obtain rfl : h.source = phase := Option.some.inj (hphase.symm.trans hp)
    obtain ⟨rest, hrest, -⟩ := remaining_source h
    rw [hrest] at hf
    have hlog : okHandshakes (post ++ [(c, (c.exec s).status)]) = okHandshakes post := by
      rw [okHandshakes_append, okHandshakes_not_ok (by rw [hstatus]; decide), List.append_nil]
    refine ⟨by rw [hsession, Session.role?_failedOf], ⟨.failed, ?_, ?_, ?_, fun _ _ => rfl⟩,
      ht.noneAfterError.concat fun _ => okHandshakes_not_ok (by rw [hstatus]; decide)⟩
    · rw [hsession, Session.phase?_failedOf]
    · rw [hlog]; exact hf.stop
    · rw [hlog]
      exact fun _ he => by have := hf.rest_eq he; cases this
  | advanced hstatus hrole hphase hrole' hphase' _ =>
    obtain rfl : h.role = role := Option.some.inj (hrole.symm.trans ht.role_eq)
    obtain rfl : h.source = phase := Option.some.inj (hphase.symm.trans hp)
    obtain ⟨rest, hrest, hrest'⟩ := remaining_source h
    rw [hrest] at hf
    -- a protocol error so far would have left the session in `Failed`
    have hnone : ∀ c', (c', .protocolError) ∉ post := fun c' hc' => by
      have := herr c' hc'
      cases h <;> cases this
    rw [hstatus]
    refine ⟨hrole', ⟨h.target, hphase', ?_, ?_, fun c' hc' => ?_⟩,
      ht.noneAfterError.concat fun ⟨c', hc'⟩ => absurd hc' (hnone c')⟩
    · rw [okHandshakes_append, okHandshakes_ok hc, hrest']
      exact Follows.advance (l := [h]) hf
    · intro ht'; cases h <;> cases ht'
    · rcases List.mem_append.mp hc' with hc' | hc'
      · exact absurd hc' (hnone c')
      · cases List.mem_singleton.mp hc'

/-- What the record says about the stored session. -/
def RecordInv (r : Recorded L) : Prop :=
  match sinceInit r.log with
  | none => r.session = .empty ∧ okHandshakes r.log = []
  | some (code, post) => ∃ role : Role, code = role.code ∧ Tracks role r.session post

theorem RecordInv.stay {r : Recorded L} (h : RecordInv r) {c : Call L}
    (hsession : (c.exec r.session).session = r.session)
    (hcut : cutAtInit (sinceInit r.log) (c, (c.exec r.session).status) =
      (sinceInit r.log).map fun p => (p.1, p.2 ++ [(c, (c.exec r.session).status)]))
    (hx : okHandshakes [(c, (c.exec r.session).status)] = [])
    (he : (c.exec r.session).status ≠ .protocolError) : RecordInv (r.call c) := by
  unfold RecordInv at h ⊢
  simp only [Recorded.call, sinceInit_concat, hcut, hsession]
  cases hi : sinceInit r.log with
  | none =>
    rw [hi] at h
    exact ⟨h.1, by rw [okHandshakes_append, h.2, hx]; rfl⟩
  | some p =>
    rw [hi] at h
    obtain ⟨role, hcode, ht⟩ := h
    exact ⟨role, hcode, ht.stay hx he⟩

theorem RecordInv.call {r : Recorded L} (h : RecordInv r) (c : Call L) : RecordInv (r.call c) := by
  rcases hc : c.handshake? with _ | hs
  · cases c with
    | makeMessage1 | processMessage1 | processMessage2 | processMessage3 => cases hc
    | sessionInit rng code own peer channel =>
      rcases sessionInit_outcome rng code own peer channel r.session with
        ⟨hok, role, hcode, hrole, hphase⟩ | ⟨hstatus, hsession, -⟩
      · unfold RecordInv
        simp only [Recorded.call, sinceInit_concat, Call.exec, hok, cutAtInit]
        exact ⟨role, hcode, .start hrole hphase⟩
      · have hst : (lakersEdhocSessionInit rng code own peer channel r.session).status ≠ .ok ∧
            (lakersEdhocSessionInit rng code own peer channel r.session).status ≠
              .protocolError := by
          rcases hstatus with h' | h' <;> rw [h'] <;> decide
        exact h.stay hsession (cutAtInit_of_not_ok hst.1 _) (okHandshakes_not_ok hst.1) hst.2
    | exportEspnowLmk output =>
      obtain ⟨hsession, hstatus⟩ := exportEspnowLmk_outcome output r.session
      have hst : (lakersEdhocExportEspnowLmk output r.session).status ≠ .protocolError := by
        rcases hstatus with ⟨h', -⟩ | ⟨h', -⟩ | ⟨h', -⟩ <;> rw [h'] <;> decide
      exact h.stay hsession (cutAtInit_of_not_init id _ _) (okHandshakes_other _ rfl) hst
  · have hinit : ¬ c.IsSessionInit := by cases c <;> first | exact id | cases hc
    have hcut := cutAtInit_of_not_init hinit (sinceInit r.log) (c.exec r.session).status
    cases hi : sinceInit r.log with
    | none =>
      -- without a session every handshake call is refused
      have hempty : r.session = .empty := by
        unfold RecordInv at h
        rw [hi] at h
        exact h.1
      cases handshake_outcome c hc r.session with
      | refused hstatus hsession _ _ =>
        have hst : (c.exec r.session).status ≠ .ok ∧
            (c.exec r.session).status ≠ .protocolError := by
          rcases hstatus with h' | h' | ⟨h', -⟩ <;> rw [h'] <;> decide
        exact h.stay hsession hcut (okHandshakes_not_ok hst.1) hst.2
      | failed _ hrole => rw [hempty] at hrole; cases hrole
      | advanced _ hrole => rw [hempty] at hrole; cases hrole
    | some p =>
      unfold RecordInv at h ⊢
      simp only [Recorded.call, sinceInit_concat, hcut]
      rw [hi] at h ⊢
      obtain ⟨role, hcode, ht⟩ := h
      exact ⟨role, hcode, ht.handshake hc⟩

theorem recordInv_run (cs : List (Call L)) : RecordInv (run Recorded.call .boot cs) :=
  run_inv (G := fun _ _ => True) (I := RecordInv) ⟨rfl, rfl⟩ (fun _ c h _ => h.call c)
    (allowed_of_forall fun _ _ _ => trivial)

/-- **The call language.** After any calls with any arguments, from the empty session: without a
successful `session_init` no handshake call and no export has returned `OK`; after one, its role
byte is a role's, the successful handshake calls since are a prefix of the role's script, none of
them comes after a protocol error, and an export to a non-null buffer succeeds if and only if the
whole script has been done, never after a protocol error. -/
theorem call_language (cs : List (Call L)) :
    let r := run Recorded.call .boot cs
    let exports (buffer : List UInt8) :=
      ((Call.exportEspnowLmk (some buffer)).exec r.session).status = .ok
    match sinceInit r.log with
    | none => okHandshakes r.log = [] ∧ ∀ buffer, ¬ exports buffer
    | some (code, post) => ∃ role : Role, code = role.code ∧
        okHandshakes post <+: handshakeScript role ∧
        (∀ p c q, post = p ++ (c, .protocolError) :: q → okHandshakes q = []) ∧
        (∀ buffer, exports buffer ↔ okHandshakes post = handshakeScript role) ∧
        ((∃ c, (c, .protocolError) ∈ post) → ∀ buffer, ¬ exports buffer) := by
  dsimp only
  have h := recordInv_run cs
  unfold RecordInv at h
  cases hi : sinceInit (run Recorded.call .boot cs).log with
  | none =>
    rw [hi] at h
    refine ⟨h.2, fun buffer hok => ?_⟩
    simp only [Call.exec, exportEspnowLmk_ok_iff, h.1] at hok
    cases hok
  | some p =>
    rw [hi] at h
    obtain ⟨role, hcode, ht⟩ := h
    obtain ⟨phase, hp, hf, hne, herr⟩ := ht.phase
    refine ⟨role, hcode, hf.isPrefix, ht.noneAfterError, fun buffer => ?_, ?_⟩
    · simp only [Call.exec, exportEspnowLmk_ok_iff, hp, Option.some.injEq]
      constructor
      · rintro rfl
        exact hf.eq_script
      · intro hall
        cases hr : remaining role phase with
        | none => exact absurd hall (hne (remaining_eq_none.mp hr))
        | some rest =>
          rw [hr] at hf
          obtain rfl := hf.rest_eq hall
          exact remaining_eq_nil.mp hr
    · rintro ⟨c, hc⟩ buffer hok
      obtain rfl := herr c hc
      simp only [Call.exec, exportEspnowLmk_ok_iff, hp] at hok
      cases hok

end EspNowEdhoc
