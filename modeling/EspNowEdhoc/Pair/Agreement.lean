import EspNowEdhoc.Pair.System

/-!
# LMK agreement

* `session_of_installed`: a board with an installed key still holds the session of its last
  handshake call.
* `AuthenticMessage2`, `AuthenticMessage3`: the messages that Lakers has accepted are those of the
  other board.
* **`lmk_agreement`**: on every schedule, two installed LMKs are equal.
-/

set_option autoImplicit false

namespace EspNowEdhoc

open Runs Script

variable {L : Lakers}

/-! ## The handshake behind an installed key -/

section Installed

variable {cfg : Config} {d : Device L}

/-- The handshake call that completes the session of a role. -/
def lastHandshake : Role → Handshake
  | .initiator => .processMessage2
  | .responder => .processMessage3

theorem lastHandshake_target (role : Role) : (lastHandshake role).target = .done := by
  cases role <;> rfl

theorem handshake_of_milestone {x : Handshake} (h : .handshake x ∈ d.milestones) :
    ∃ input ret, Event.handshake x input ret ∈ d.trace ∧ ret.status = .ok := by
  obtain ⟨e, he, hm⟩ := List.mem_filterMap.mp h
  cases e with
  | handshake x' input ret =>
    simp only [Event.milestone?, Option.ite_none_right_eq_some, Option.some.injEq,
      Milestone.handshake.injEq] at hm
    obtain ⟨hok, rfl⟩ := hm
    exact ⟨input, ret, he, hok⟩
  | exportLmk ret =>
    simp only [Event.milestone?] at hm
    split at hm <;> cases hm
  | accepted msg =>
    obtain ⟨t, -, ht⟩ := Option.map_eq_some_iff.mp hm
    cases ht
  | sent f =>
    obtain ⟨t, -, ht⟩ := Option.map_eq_some_iff.mp hm
    cases ht
  | installed lmk => cases hm

theorem before_installed (h : Inv cfg d) (hl : (d.lmk? cfg).isSome) :
    (completionScript cfg.role).take 6 <+: d.milestones := by
  have hpre := h.at_ahead.follows.isPrefix
  have hmem := h.at_ahead.lmk_exported hl
  cases hrole : cfg.role <;> rw [hrole] at hpre
  · exact prefix_of_mem (q := (completionScript .initiator).drop 7) hpre hmem (by decide)
  · exact prefix_of_mem (q := (completionScript .responder).drop 7) hpre hmem (by decide)

/-- The session of a board with an installed key is the one its last handshake call returned. -/
theorem session_of_installed (h : Inv cfg d) (hl : (d.lmk? cfg).isSome) :
    ∃ input ret, Event.handshake (lastHandshake cfg.role) input ret ∈ d.trace ∧
      ret.status = .ok ∧ ret.session = d.session := by
  have hmem : .handshake (lastHandshake cfg.role) ∈ d.milestones := by
    refine (before_installed h hl).subset ?_
    cases cfg.role <;> decide
  obtain ⟨input, ret, he, hok⟩ := handshake_of_milestone hmem
  exact ⟨input, ret, he, hok,
    ((h.at_ahead.fits _ he).2 hok (lastHandshake_target cfg.role)).2⟩

end Installed

/-! ## Agreement -/

/-- The message a handshake call has written. -/
def FfiRet.message (ret : FfiRet L) : List UInt8 :=
  (ret.output.getD []).take (ret.outputLength.getD 0)

/-- Lakers authenticates message_3: where the responder `dr` has completed, the initiator `di` has
made the message, and the two completed sessions have one PRK_out. -/
def AuthenticMessage3 {Prk : Type} (prkOut : L.Done → Prk) (di dr : Device L) : Prop :=
  ∀ input ret doneR, .handshake .processMessage3 input ret ∈ dr.trace → ret.status = .ok →
    ret.session.done? = some doneR →
    ∃ input' ret' doneI, .handshake .processMessage2 input' ret' ∈ di.trace ∧ ret'.status = .ok ∧
      ret'.message = input ∧ ret'.session.done? = some doneI ∧ prkOut doneI = prkOut doneR

/-- Lakers authenticates message_2: where the initiator `di` has accepted it, the responder `dr` has
made it. -/
def AuthenticMessage2 (di dr : Device L) : Prop :=
  ∀ input ret, .handshake .processMessage2 input ret ∈ di.trace → ret.status = .ok →
    ∃ input' ret', .handshake .processMessage1 input' ret' ∈ dr.trace ∧ ret'.status = .ok ∧
      ret'.message = input

section Agreement

variable {Prk : Type} {prkOut : L.Done → Prk}

/-- **LMK agreement.** An initiator and a responder are configured for each other and boot once. On
every schedule, with frames delivered, lost, duplicated, reordered and injected in any way, if both
boards have an LMK installed, then it is the same. -/
theorem lmk_agreement {s₀ : Pair L} (hboot : ∀ x, (s₀ x).Booted)
    (hmut : Mutual (s₀ .a).cfg (s₀ .b).cfg)
    (hexp : ∀ done done', prkOut done = prkOut done' →
      L.edhocExporter done = L.edhocExporter done')
    (acts : List (Act L))
    (hauth : AuthenticMessage3 prkOut (run Pair.step s₀ acts .a).dev
      (run Pair.step s₀ acts .b).dev) :
    ∀ lmkI lmkR, (run Pair.step s₀ acts .a).dev.lmk? (s₀ .a).cfg = some lmkI →
      (run Pair.step s₀ acts .b).dev.lmk? (s₀ .b).cfg = some lmkR → lmkI = lmkR := by
  intro lmkI lmkR hI hR
  have hinv := inv_pair hboot acts
  have hgrows := grows_pair (fun x => inv_booted (hboot x)) acts
  have hinvI := hinv .a
  have hinvR := hinv .b
  rw [(hgrows .a).1] at hinvI
  rw [(hgrows .b).1] at hinvR
  -- the two completed sessions, and what they exported
  obtain ⟨doneI, hdoneI, hlmkI⟩ := hinvI.at_ahead.lmk_eq lmkI hI
  obtain ⟨doneR, hdoneR, hlmkR⟩ := hinvR.at_ahead.lmk_eq lmkR hR
  -- the responder's session came with a message_3 of the initiator's session
  obtain ⟨input, ret, hev, hok, hses⟩ := session_of_installed hinvR (by rw [hR]; rfl)
  rw [hmut.responder] at hev
  obtain ⟨input', ret', done', hev', hok', -, hdone', hprk⟩ :=
    hauth input ret doneR hev hok (by rw [hses]; exact hdoneR)
  have hses' := ((hinvI.at_ahead.fits _ hev').2 hok' rfl).2
  rw [hses', hdoneI] at hdone'
  cases hdone'
  rw [hlmkI, hlmkR, (hmut.lmkToInstall _).1, (hmut.lmkToInstall _).2, exportLmk, exportLmk,
    hexp _ _ hprk, hmut.exporterContext]

end Agreement

/-- What a handshake event of `Lakers.sample` shows of its call. -/
def Event.shown? (x : Handshake) : Event Lakers.sample →
    Option (List UInt8 × Status × List UInt8 × Option (UInt8 × UInt8))
  | .handshake x' input ret =>
    if x' = x then some (input, ret.status, ret.message, ret.session.prkOut?) else none
  | _ => none

section Shown

variable {d : Device Lakers.sample} {x : Handshake} {input message : List UInt8} {status : Status}
  {prk : Option (UInt8 × UInt8)}

theorem shown_of_mem {ret : FfiRet Lakers.sample} (h : .handshake x input ret ∈ d.trace) :
    (input, ret.status, ret.message, ret.session.prkOut?) ∈
      d.trace.filterMap (Event.shown? x) :=
  List.mem_filterMap.mpr ⟨_, h, if_pos rfl⟩

theorem mem_of_shown (h : (input, status, message, prk) ∈ d.trace.filterMap (Event.shown? x)) :
    ∃ ret, .handshake x input ret ∈ d.trace ∧ ret.status = status ∧ ret.message = message ∧
      ret.session.prkOut? = prk := by
  obtain ⟨e, he, hshown⟩ := List.mem_filterMap.mp h
  cases e with
  | handshake x' input' ret =>
    simp only [Event.shown?, Option.ite_none_right_eq_some, Option.some.injEq, Prod.mk.injEq]
      at hshown
    obtain ⟨rfl, rfl, hshown⟩ := hshown
    exact ⟨ret, he, hshown⟩
  | exportLmk | accepted | sent | installed => cases hshown

theorem authenticMessage3_of_shown {di dr : Device Lakers.sample}
    (hr : dr.trace.filterMap (Event.shown? .processMessage3) =
      [(sampleMessage3, .ok, [], some (7, 9))])
    (hi : (sampleMessage2, .ok, sampleMessage3, some (7, 9)) ∈
      di.trace.filterMap (Event.shown? .processMessage2)) :
    AuthenticMessage3 (fun done => done) di dr := by
  intro input ret doneR hev _ hdoneR
  have hshown := shown_of_mem hev
  rw [hr, List.mem_singleton] at hshown
  simp only [Prod.mk.injEq] at hshown
  obtain ⟨rfl, -, -, hprk⟩ := hshown
  obtain ⟨ret', he, hok, hmsg, hprk'⟩ := mem_of_shown hi
  exact ⟨sampleMessage2, ret', (7, 9), he, hok, hmsg, hprk',
    Option.some.inj (hprk.symm.trans hdoneR)⟩

end Shown

theorem authenticMessage3_sample :
    AuthenticMessage3 (fun done => done) (run Pair.step Pair.sample sampleActs .a).dev
      (run Pair.step Pair.sample sampleActs .b).dev :=
  authenticMessage3_of_shown (by decide) (by decide)

theorem lmk_agreement_sample :
    let s := run Pair.step Pair.sample sampleActs
    ∃ lmk, (s .a).dev.lmk? (Config.sample .initiator) = some lmk ∧
      (s .b).dev.lmk? (Config.sample .responder) = some lmk := by
  obtain ⟨lmkI, hI⟩ := Option.isSome_iff_exists.mp (show ((run Pair.step Pair.sample sampleActs
    .a).dev.lmk? (Config.sample .initiator)).isSome by decide)
  obtain ⟨lmkR, hR⟩ := Option.isSome_iff_exists.mp (show ((run Pair.step Pair.sample sampleActs
    .b).dev.lmk? (Config.sample .responder)).isSome by decide)
  have heq := lmk_agreement booted_sample (by decide) (fun _ _ => congrArg _) sampleActs
    authenticMessage3_sample lmkI lmkR hI hR
  exact ⟨lmkI, hI, by rw [heq]; exact hR⟩

end EspNowEdhoc
