import Mathlib.Data.List.Infix

/-!
# Following a script

A *follower* of a list `script` does the entries of `script` one after the other and may stop
early. `log` is what it has done, `rest` what it still has to do (`none` once it has stopped).

* `Follows script log rest`: a position of a follower; `Follows.advance`, `Follows.stop`: its moves.
* `Follows.isPrefix`, **`Follows.eq_script`**: what has been done at a position.
* **`matched_of_keys`**: two logs of one script without repetitions match entry by entry if every
  entry of the first has its match somewhere in the second.
-/

namespace Script

variable {β : Type*} {script l log r : List β} {rest : Option (List β)}

/-- `log` has been done and `rest` is left of `script`. -/
def Follows (script log : List β) (rest : Option (List β)) : Prop :=
  log ++ rest.getD (script.drop log.length) = script

theorem Follows.start : Follows script [] (some script) := by simp [Follows]

theorem Follows.advance (h : Follows script log (some (l ++ r))) :
    Follows script (log ++ l) (some r) := by
  simpa [Follows, List.append_assoc] using h

theorem Follows.isPrefix (h : Follows script log rest) : log <+: script := ⟨_, h⟩

theorem Follows.of_isPrefix (h : log <+: script) : Follows script log none := by
  obtain ⟨t, rfl⟩ := h
  simp [Follows]

theorem Follows.stop (h : Follows script log rest) : Follows script log none :=
  .of_isPrefix h.isPrefix

/-- **A follower with nothing left has done the whole script.** -/
theorem Follows.eq_script (h : Follows script log (some [])) : log = script := by
  simpa [Follows] using h

theorem Follows.rest_eq (h : Follows script log (some r)) (hlog : log = script) : r = [] := by
  subst hlog
  simpa [Follows] using h

theorem prefix_of_mem {p q : List β} {x : β} (hlog : log <+: p ++ x :: q) (hx : x ∈ log)
    (hp : x ∉ p) : p <+: log := by
  rcases List.prefix_or_prefix_of_prefix hlog (List.prefix_append p (x :: q)) with h | h
  · exact absurd (h.subset hx) hp
  · exact h

theorem getElem?_of_isPrefix {i : ℕ} {x : β} (hlog : log <+: script) (hx : log[i]? = some x) :
    script[i]? = some x := by
  obtain ⟨hi, rfl⟩ := List.getElem?_eq_some_iff.mp hx
  exact List.prefix_iff_getElem?.mp hlog i hi

/-- **Matching by keys.** The keys of `l` and of `l'` each follow one script without repetitions,
and each entry of `l` has a match with the same key somewhere in `l'`. Then it has its match at the
same position. -/
theorem matched_of_keys {α γ : Type*} {key : α → β} {key' : γ → β} {l : List α} {l' : List γ}
    {R : α → γ → Prop} (hscript : script.Nodup) (hl : l.map key <+: script)
    (hl' : l'.map key' <+: script) (hR : ∀ a ∈ l, ∃ c ∈ l', R a c)
    (hkey : ∀ a c, R a c → key a = key' c) {i : ℕ} {a : α} (ha : l[i]? = some a) :
    ∃ c, l'[i]? = some c ∧ R a c := by
  obtain ⟨c, hc, hac⟩ := hR a (List.mem_of_getElem? ha)
  obtain ⟨j, hj, hcj⟩ := List.getElem_of_mem hc
  have hc' : l'[j]? = some c := by rw [List.getElem?_eq_getElem hj, hcj]
  -- both keys are entries of the script, and they are the same
  have hi : script[i]? = some (key a) :=
    getElem?_of_isPrefix hl (by rw [List.getElem?_map, ha, Option.map_some])
  have hj : script[j]? = some (key a) := by
    rw [hkey a c hac]
    exact getElem?_of_isPrefix hl' (by rw [List.getElem?_map, hc', Option.map_some])
  have hij : i = j :=
    (List.getElem?_inj (List.getElem?_eq_some_iff.mp hi).1 hscript).mp (hi.trans hj.symm)
  exact ⟨c, hij ▸ hc', hac⟩

end Script
