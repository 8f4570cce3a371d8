import Mathlib.Data.List.Count
import TetrisFpga.Usb.Transfer

/-!
# The retries of a dispatch

`XferDispatchPkt` launches the packet again after a NAK and after a bus timeout, each up to a
limit of its own, and all launches share one deadline. The transcript of a dispatch is its launches,
each with the polls that waited for it, and the results the chip gave to them.
-/

namespace TetrisFpga.Usb
open Program

/-! ## The limits -/

/-- The dispatch stops with the first of these results, the newest one. -/
def Stops : List BYTE → Prop
  | [] => False
  | r :: earlier => (r ≠ hrNAK ∧ r ≠ hrTIMEOUT) ∨
      usbNakLimit.toNat ≤ (r :: earlier).count hrNAK ∨
      usbRetryLimit.toNat ≤ (r :: earlier).count hrTIMEOUT

/-- The dispatch went on after each of these results. -/
def GoesOn : List BYTE → Prop
  | [] => True
  | r :: earlier => ¬Stops (r :: earlier) ∧ GoesOn earlier

instance : DecidablePred Stops
  | [] => .isFalse id
  | _ :: _ => inferInstanceAs (Decidable (_ ∨ _))

/-- What the dispatch went on after is NAKs and timeouts, below their limits. -/
theorem GoesOn.counts {rs : List BYTE} (h : GoesOn rs) :
    rs.length = rs.count hrNAK + rs.count hrTIMEOUT ∧ rs.count hrNAK < 200 ∧
      rs.count hrTIMEOUT < 3 := by
  induction rs with
  | nil => exact ⟨rfl, by decide, by decide⟩
  | cons r earlier ih =>
    obtain ⟨hstops, hearlier⟩ := h
    obtain ⟨hlen, -, -⟩ := ih hearlier
    simp only [Stops, not_or, Nat.not_le] at hstops
    obtain ⟨hkind, hnak, htimeout⟩ := hstops
    refine ⟨?_, hnak, htimeout⟩
    by_cases hr : r = hrNAK
    · subst hr
      rw [List.count_cons_self, List.count_cons_of_ne (by decide), List.length_cons, hlen]
      omega
    · have ht : r = hrTIMEOUT := by
        by_contra ht
        exact hkind ⟨hr, ht⟩
      subst ht
      rw [List.count_cons_self, List.count_cons_of_ne (by decide), List.length_cons, hlen]
      omega

theorem GoesOn.length_le {rs : List BYTE} (h : GoesOn rs) : rs.length ≤ 201 := by
  have hcounts := h.counts
  omega

/-! ## The transcript -/

section Transcript

variable (token ep : BYTE) (deadline : DWORD)

/-- A launch and `n` polls in time that did not show its end, the newest event first. -/
inductive Polls : ℕ → List Event → Prop
  | launch : Polls 0 [.wr rHXFR (token ||| ep)]
  | poll {n : ℕ} {log : List Event} {t : DWORD} {hirq : BYTE} : Polls n log → ms t < deadline →
      hirq &&& bmHXFRDNIRQ = 0 → Polls (n + 1) (.rd rHIRQ hirq :: .nticks t :: log)

/-- A launch that is completed before the deadline, with its result. -/
inductive Completes : BYTE → List Event → Prop
  | intro {n : ℕ} {log : List Event} {t : DWORD} {hirq : BYTE} (hrsl : BYTE) :
      Polls token ep deadline n log → ms t < deadline → hirq &&& bmHXFRDNIRQ ≠ 0 →
      Completes (hrsl &&& 0x0f)
        (.rd rHRSL hrsl :: .wr rHIRQ bmHXFRDNIRQ :: .rd rHIRQ hirq :: .nticks t :: log)

/-- A launch that is not completed before the deadline. -/
inductive Late : List Event → Prop
  | intro {n : ℕ} {log : List Event} {t : DWORD} : Polls token ep deadline n log →
      ¬ms t < deadline → Late (.nticks t :: log)

/-- A launch for which neither the end nor the deadline came in `n` polls. -/
inductive Unanswered (n : ℕ) : List Event → Prop
  | intro {log : List Event} {t : DWORD} : Polls token ep deadline n log → ms t < deadline →
      Unanswered n (.nticks t :: log)

/-- The computation of the deadline and the launches that were completed, with their results. -/
inductive Attempts : List BYTE → List Event → Prop
  | start {t : DWORD} : ms t + usbXferTimeout = deadline → Attempts [] [.nticks t]
  | next {rs : List BYTE} {r : BYTE} {log launch : List Event} : Attempts rs log →
      Completes token ep deadline r launch → Attempts (r :: rs) (launch ++ log)

/-- The transcript of a dispatch that returns. -/
inductive Dispatched : BYTE → List Event → Prop
  | stops {deadline : DWORD} {rs : List BYTE} {r : BYTE} {log launch : List Event} :
      Attempts token ep deadline rs log → GoesOn rs → Completes token ep deadline r launch →
      Stops (r :: rs) → Dispatched r (launch ++ log)
  | late {deadline : DWORD} {rs : List BYTE} {log launch : List Event} :
      Attempts token ep deadline rs log → GoesOn rs → Late token ep deadline launch →
      Dispatched 0xff (launch ++ log)

/-- The transcript of a dispatch that is cut off, in a wait after `n` polls or behind `tries`
launches. -/
inductive CutOff (n tries : ℕ) : Fault → List Event → Prop
  | wait {deadline : DWORD} {rs : List BYTE} {log launch : List Event} :
      Attempts token ep deadline rs log → GoesOn rs → Unanswered token ep deadline n launch →
      CutOff n tries .wait (launch ++ log)
  | dispatch {deadline : DWORD} {rs : List BYTE} {log : List Event} :
      Attempts token ep deadline rs log → GoesOn rs → tries = rs.length →
      CutOff n tries .dispatch log

end Transcript

variable {token ep : BYTE} {deadline : DWORD}

theorem Polls.tokens {n : ℕ} {log : List Event} (h : Polls token ep deadline n log) :
    tokens log = [token ||| ep] := by
  induction h with
  | launch => rfl
  | poll _ _ _ ih => exact ih

theorem Completes.tokens {r : BYTE} {log : List Event} (h : Completes token ep deadline r log) :
    tokens log = [token ||| ep] := by
  obtain ⟨_, hpolls, _, _⟩ := h
  exact hpolls.tokens

theorem Late.tokens {log : List Event} (h : Late token ep deadline log) :
    tokens log = [token ||| ep] := by
  obtain ⟨hpolls, _⟩ := h
  exact hpolls.tokens

theorem Unanswered.tokens {n : ℕ} {log : List Event}
    (h : Unanswered token ep deadline n log) : tokens log = [token ||| ep] := by
  obtain ⟨hpolls, _⟩ := h
  exact hpolls.tokens

theorem tokens_append (log log' : List Event) : tokens (log ++ log') = tokens log ++ tokens log' :=
  List.filterMap_append

/-- There is a launch for each result, with this token. -/
theorem Attempts.tokens {rs : List BYTE} {log : List Event}
    (h : Attempts token ep deadline rs log) :
    tokens log = List.replicate rs.length (token ||| ep) := by
  induction h with
  | start _ => rfl
  | next _ hlaunch ih =>
    rw [tokens_append, hlaunch.tokens, ih]
    rfl

/-! ## The wait for one launch -/

section Run

variable {χ : Type} [Platform χ]

/-- What the wait for a launch leaves behind in the log, in front of `rest`: the launch is
completed, late or unanswered. -/
def WaitEnds (token ep : BYTE) (deadline : DWORD) (n : ℕ) (rest : List Event) :
    EStateM.Result Fault (World χ) BYTE → Prop
  | .ok rcode w' => (rcode = 0x00 ∧ ∀ hrsl, ∃ launch,
      Completes token ep deadline (hrsl &&& 0x0f) launch ∧
        .rd rHRSL hrsl :: w'.log = launch ++ rest) ∨
    (rcode = 0xff ∧ ∃ launch, Late token ep deadline launch ∧ w'.log = launch ++ rest)
  | .error e w' => e = .wait ∧ ∃ launch, Unanswered token ep deadline n launch ∧
      w'.log = launch ++ rest

/-- The test of the wait loop reads the clock. -/
theorem waitDone_test (deadline : DWORD) (w : World χ) :
    ∃ t w', (do return decide ((← altMs) < deadline) : Prog χ Bool) w =
        .ok (decide (ms t < deadline)) w' ∧ w'.log = .nticks t :: w.log :=
  ⟨_, _, rfl, rfl⟩

/-- A round of the wait loop reads `HIRQ`, and clears the bit where it is set. -/
theorem waitDone_round (w : World χ) :
    ∃ hirq w', w'.log = .rd rHIRQ hirq :: w.log ∧
      (do
        let tmpdata ← maxRegRd rHIRQ
        if tmpdata &&& bmHXFRDNIRQ ≠ 0 then
          maxRegWr rHIRQ bmHXFRDNIRQ
          return .inr 0x00
        else return .inl () : Prog χ (Unit ⊕ BYTE)) w =
        if hirq &&& bmHXFRDNIRQ ≠ 0 then
          (do maxRegWr rHIRQ bmHXFRDNIRQ; return .inr 0x00 : Prog χ (Unit ⊕ BYTE)) w'
        else .ok (.inl ()) w' := by
  refine ⟨_, w.afterRd rHIRQ, rfl, ?_⟩
  rw [bind_of_ok (maxRegRd_run rHIRQ w)]
  split <;> rfl

theorem waitDone_run {token ep : BYTE} {deadline : DWORD} {k : ℕ} {launch rest : List Event}
    (hpolls : Polls token ep deadline k launch) (n : ℕ) {w : World χ}
    (hlog : w.log = launch ++ rest) :
    WaitEnds token ep deadline (k + n) rest (waitDone n deadline w) := by
  induction n generalizing k launch w with
  | zero =>
    obtain ⟨t, w₁, htest, hlog₁⟩ := waitDone_test deadline w
    rw [waitDone, whileLoop, bind_of_ok htest]
    by_cases hdue : ms t < deadline
    · rw [decide_eq_true hdue]
      exact ⟨rfl, _, ⟨hpolls, hdue⟩, by rw [hlog₁, hlog]; rfl⟩
    · rw [decide_eq_false hdue]
      exact .inr ⟨rfl, _, ⟨hpolls, hdue⟩, by rw [hlog₁, hlog]; rfl⟩
  | succ n ih =>
    obtain ⟨t, w₁, htest, hlog₁⟩ := waitDone_test deadline w
    rw [waitDone, whileLoop, bind_of_ok htest]
    by_cases hdue : ms t < deadline
    · rw [decide_eq_true hdue, if_pos rfl]
      obtain ⟨hirq, w₂, hlog₂, hround⟩ := waitDone_round w₁
      by_cases hdone : hirq &&& bmHXFRDNIRQ ≠ 0
      · rw [if_pos hdone] at hround
        rw [bind_of_ok (hround.trans rfl)]
        refine .inl ⟨rfl, fun hrsl => ⟨_, ⟨hrsl, hpolls, hdue, hdone⟩, ?_⟩⟩
        show .rd rHRSL hrsl :: .wr rHIRQ bmHXFRDNIRQ :: w₂.log = _
        rw [hlog₂, hlog₁, hlog]
        rfl
      · rw [if_neg hdone] at hround
        have hlog' : w₂.log = (.rd rHIRQ hirq :: .nticks t :: launch) ++ rest := by
          rw [hlog₂, hlog₁, hlog]
          rfl
        have hnext := ih (hpolls.poll hdue (not_not.mp hdone)) hlog'
        rw [Nat.add_right_comm] at hnext
        rw [bind_of_ok hround]
        exact hnext
    · rw [decide_eq_false hdue]
      exact .inr ⟨rfl, _, ⟨hpolls, hdue⟩, by rw [hlog₁, hlog]; rfl⟩

/-! ## The loop over the launches -/

/-- What a round does with a result, for the values of `retry_count` and `nak_count`. -/
def afterResult : BYTE × BYTE → BYTE → (BYTE × BYTE) ⊕ BYTE
  | (retryCount, nakCount), r =>
    if r = hrNAK then
      if nakCount + 1 = usbNakLimit then .inr r else .inl (retryCount, nakCount + 1)
    else if r = hrTIMEOUT then
      if retryCount + 1 = usbRetryLimit then .inr r else .inl (retryCount + 1, nakCount)
    else .inr r

/-- A round is one launch: completed, late or unanswered. -/
theorem dispatchRound_run (fuel : Fuel) (deadline : DWORD) (token ep : BYTE)
    (counts : BYTE × BYTE) (w : World χ) :
    ∃ launch w', w'.log = launch ++ w.log ∧
      ((∃ r, Completes token ep deadline r launch ∧
          dispatchRound fuel deadline token ep counts w = .ok (afterResult counts r) w') ∨
        (Late token ep deadline launch ∧
          dispatchRound fuel deadline token ep counts w = .ok (.inr 0xff) w') ∨
        (Unanswered token ep deadline fuel.wait launch ∧
          dispatchRound fuel deadline token ep counts w = .error .wait w')) := by
  have hlaunch : ∃ w₁, (maxRegWr rHXFR (token ||| ep) : Prog χ Unit) w = .ok () w₁ ∧
      w₁.log = [.wr rHXFR (token ||| ep)] ++ w.log := ⟨_, rfl, rfl⟩
  obtain ⟨w₁, hlaunch, hlog₁⟩ := hlaunch
  have hpolls : Polls token ep deadline 0 [.wr rHXFR (token ||| ep)] := .launch
  have hwait := waitDone_run hpolls fuel.wait hlog₁
  rw [Nat.zero_add] at hwait
  rw [dispatchRound, bind_of_ok hlaunch]
  cases hr : waitDone fuel.wait deadline w₁ with
  | error e w₂ =>
    rw [hr] at hwait
    obtain ⟨rfl, launch, hlate, hlog⟩ := hwait
    exact ⟨launch, w₂, hlog, .inr (.inr ⟨hlate, bind_of_error hr _⟩)⟩
  | ok rcode w₂ =>
    rw [hr] at hwait
    rw [bind_of_ok hr]
    obtain ⟨rfl, hdone⟩ | ⟨rfl, launch, hlate, hlog⟩ := hwait
    · obtain ⟨launch, hcomp, hlog⟩ := hdone (Platform.rd w₂.chip rHRSL).1
      refine ⟨launch, w₂.afterRd rHRSL, hlog, .inl ⟨_, hcomp, ?_⟩⟩
      rw [if_neg (by decide), bind_of_ok (maxRegRd_run rHRSL w₂), afterResult]
      split <;> (try split) <;> (try split) <;> rfl
    · exact ⟨launch, w₂, hlog, .inr (.inl ⟨hlate, rfl⟩)⟩

/-- What a dispatch leaves behind in the log, in front of `rest`. -/
def DispatchEnds (token ep : BYTE) (n tries : ℕ) (rest : List Event) :
    EStateM.Result Fault (World χ) BYTE → Prop
  | .ok rcode w' => ∃ log, Dispatched token ep rcode log ∧ w'.log = log ++ rest
  | .error e w' => ∃ log, CutOff token ep n tries e log ∧ w'.log = log ++ rest

/-- The two counters count the NAKs and the timeouts. -/
def Counts (rs : List BYTE) (counts : BYTE × BYTE) : Prop :=
  counts.1.toNat = rs.count hrTIMEOUT ∧ counts.2.toNat = rs.count hrNAK

omit [Platform χ] in
/-- A counter below its limit does not wrap. -/
theorem toNat_count (limit : BYTE) {c : BYTE} {n : ℕ} (hn : c.toNat = n) (hlt : n < limit.toNat) :
    (c + 1).toNat = n + 1 ∧ (c + 1 = limit ↔ n + 1 = limit.toNat) := by
  have hlimit := limit.isLt
  have hsum : (c + 1).toNat = n + 1 := by
    rw [BitVec.toNat_add, hn]
    exact Nat.mod_eq_of_lt (show n + 1 < 2 ^ 8 by omega)
  exact ⟨hsum, by rw [← hsum, BitVec.toNat_inj]⟩

omit [Platform χ] in
/-- The counters stop the loop exactly where the results do. -/
theorem afterResult_cases {rs : List BYTE} {counts : BYTE × BYTE} (hcounts : Counts rs counts)
    (hrs : GoesOn rs) (r : BYTE) :
    (afterResult counts r = .inr r ∧ Stops (r :: rs)) ∨
      ∃ counts', afterResult counts r = .inl counts' ∧ GoesOn (r :: rs) ∧
        Counts (r :: rs) counts' := by
  obtain ⟨retryCount, nakCount⟩ := counts
  obtain ⟨hretry, hnak⟩ := hcounts
  obtain ⟨-, hnaks, htimeouts⟩ := hrs.counts
  obtain ⟨hnak', hnakLimit⟩ := toNat_count usbNakLimit hnak hnaks
  obtain ⟨hretry', hretryLimit⟩ := toNat_count usbRetryLimit hretry htimeouts
  have hnakNat : usbNakLimit.toNat = 200 := rfl
  have hretryNat : usbRetryLimit.toNat = 3 := rfl
  rw [afterResult]
  -- each counter goes up with its own result only
  by_cases hn : r = hrNAK
  · subst hn
    have hstops : Stops (hrNAK :: rs) ↔ rs.count hrNAK + 1 = usbNakLimit.toNat := by
      rw [Stops, List.count_cons_self, List.count_cons_of_ne (by decide)]
      simp only [ne_eq, not_true_eq_false, false_and, false_or]
      omega
    rw [if_pos rfl]
    by_cases hlimit : nakCount + 1 = usbNakLimit
    · exact .inl ⟨if_pos hlimit, hstops.mpr (hnakLimit.mp hlimit)⟩
    · refine .inr ⟨_, if_neg hlimit, ⟨fun hs => hlimit (hnakLimit.mpr (hstops.mp hs)), hrs⟩, ?_⟩
      rw [Counts, List.count_cons_self, List.count_cons_of_ne (by decide)]
      exact ⟨hretry, hnak'⟩
  · rw [if_neg hn]
    by_cases ht : r = hrTIMEOUT
    · subst ht
      have hstops : Stops (hrTIMEOUT :: rs) ↔
          rs.count hrTIMEOUT + 1 = usbRetryLimit.toNat := by
        rw [Stops, List.count_cons_self, List.count_cons_of_ne (by decide)]
        simp only [ne_eq, not_true_eq_false, and_false, false_or]
        omega
      rw [if_pos rfl]
      by_cases hlimit : retryCount + 1 = usbRetryLimit
      · exact .inl ⟨if_pos hlimit, hstops.mpr (hretryLimit.mp hlimit)⟩
      · refine .inr ⟨_, if_neg hlimit, ⟨fun hs => hlimit (hretryLimit.mpr (hstops.mp hs)), hrs⟩, ?_⟩
        rw [Counts, List.count_cons_self, List.count_cons_of_ne (by decide)]
        exact ⟨hretry', hnak⟩
    · exact .inl ⟨if_neg ht, .inl ⟨hn, ht⟩⟩

/-- The loop leaves the transcript of a dispatch, whole or cut off. -/
theorem dispatchLoop_run (fuel : Fuel) {token ep : BYTE} {deadline : DWORD} (n : ℕ)
    {rs : List BYTE} {counts : BYTE × BYTE} {log rest : List Event} {w : World χ}
    (hattempts : Attempts token ep deadline rs log) (hrs : GoesOn rs) (hcounts : Counts rs counts)
    (hlog : w.log = log ++ rest) :
    DispatchEnds token ep fuel.wait (n + rs.length) rest
      (forever .dispatch (dispatchRound fuel deadline token ep) n counts w) := by
  induction n generalizing rs counts log w with
  | zero => exact ⟨_, .dispatch hattempts hrs (Nat.zero_add _), hlog⟩
  | succ n ih =>
    obtain ⟨launch, w₁, hlog₁, hround⟩ := dispatchRound_run fuel deadline token ep counts w
    rw [hlog, ← List.append_assoc] at hlog₁
    obtain ⟨r, hcomp, hr⟩ | ⟨hlate, hr⟩ | ⟨hlate, hr⟩ := hround
    · rw [forever_succ, bind_of_ok hr]
      obtain ⟨hstop, hstops⟩ | ⟨counts', hgo, hrs', hcounts'⟩ := afterResult_cases hcounts hrs r
      · rw [hstop]
        exact ⟨_, .stops hattempts hrs hcomp hstops, hlog₁⟩
      · have hrest := ih (hattempts.next hcomp) hrs' hcounts' hlog₁
        rw [List.length_cons, ← Nat.add_assoc, Nat.add_right_comm] at hrest
        rw [hgo]
        exact hrest
    · rw [forever_succ, bind_of_ok hr]
      exact ⟨_, .late hattempts hrs hlate, hlog₁⟩
    · rw [forever_succ, bind_of_error hr]
      exact ⟨_, .wait hattempts hrs hlate, hlog₁⟩

theorem xferDispatchPkt_run (fuel : Fuel) (token ep : BYTE) (w : World χ) :
    DispatchEnds token ep fuel.wait fuel.dispatch w.log (xferDispatchPkt fuel token ep w) := by
  have hclock : ∃ t w₁, (altMs : Prog χ DWORD) w = .ok (ms t) w₁ ∧
      w₁.log = [.nticks t] ++ w.log := ⟨_, _, rfl, rfl⟩
  obtain ⟨t, w₁, hclock, hlog₁⟩ := hclock
  rw [xferDispatchPkt, bind_of_ok hclock]
  exact dispatchLoop_run fuel fuel.dispatch (.start rfl) trivial
    (⟨rfl, rfl⟩ : Counts [] (0, 0)) hlog₁

/-- The retry law. The packet is launched until the results so far say to stop, and the last of
them is returned, after 202 launches at most; a launch that is late ends the dispatch with 0xff.
Only a wait that sees neither the end of its launch nor the deadline goes on. -/
def RetryLaw (fuel : Fuel) (token ep : BYTE) (w : World χ) : Prop :=
  ∃ deadline rs log launch w', Attempts token ep deadline rs log ∧ GoesOn rs ∧
    w'.log = launch ++ log ∧ rs.length + 1 ≤ 202 ∧
    tokens w'.log = List.replicate (rs.length + 1) (token ||| ep) ∧
    ((∃ r, Completes token ep deadline r launch ∧ Stops (r :: rs) ∧
        xferDispatchPkt fuel token ep { w with log := [] } = .ok r w') ∨
      (Late token ep deadline launch ∧
        xferDispatchPkt fuel token ep { w with log := [] } = .ok 0xff w') ∨
      (Unanswered token ep deadline fuel.wait launch ∧
        xferDispatchPkt fuel token ep { w with log := [] } = .error .wait w'))

theorem xferDispatchPkt_retries {fuel : Fuel} (hfuel : 202 ≤ fuel.dispatch) (token ep : BYTE)
    (w : World χ) : RetryLaw fuel token ep w := by
  have hends := xferDispatchPkt_run fuel token ep { w with log := [] }
  have hlen {rs : List BYTE} (hrs : GoesOn rs) : rs.length + 1 ≤ 202 :=
    Nat.succ_le_succ hrs.length_le
  have htokens {deadline : DWORD} {rs : List BYTE} {log launch : List Event} {w' : World χ}
      (hattempts : Attempts token ep deadline rs log) (hlaunch : tokens launch = [token ||| ep])
      (hlog : w'.log = launch ++ log) :
      tokens w'.log = List.replicate (rs.length + 1) (token ||| ep) := by
    rw [hlog, tokens_append, hattempts.tokens, hlaunch]
    rfl
  cases hr : xferDispatchPkt fuel token ep { w with log := [] } with
  | ok rcode w' =>
    rw [hr] at hends
    obtain ⟨_, hdisp, hlog⟩ := hends
    rw [List.append_nil] at hlog
    cases hdisp with
    | stops hattempts hrs hcomp hstops =>
      exact ⟨_, _, _, _, w', hattempts, hrs, hlog, hlen hrs, htokens hattempts hcomp.tokens hlog,
        .inl ⟨rcode, hcomp, hstops, hr⟩⟩
    | late hattempts hrs hlate =>
      exact ⟨_, _, _, _, w', hattempts, hrs, hlog, hlen hrs, htokens hattempts hlate.tokens hlog,
        .inr (.inl ⟨hlate, hr⟩)⟩
  | error e w' =>
    rw [hr] at hends
    obtain ⟨_, hcut, hlog⟩ := hends
    rw [List.append_nil] at hlog
    cases hcut with
    | wait hattempts hrs hlate =>
      exact ⟨_, _, _, _, w', hattempts, hrs, hlog, hlen hrs, htokens hattempts hlate.tokens hlog,
        .inr (.inr ⟨hlate, hr⟩)⟩
    | dispatch hattempts hrs htries =>
      have hbound := hrs.length_le
      omega

end Run

/-- A NAK, a bus timeout, a NAK and an acknowledgement. -/
def nakTimeoutNak : World Script where
  chip := { answers := [0x80, hrNAK, 0x80, hrTIMEOUT, 0x80, hrNAK, 0x80, 0x00] }
  mem := fun _ _ => 0

/-- Four launches, the last of which is acknowledged. -/
theorem nakTimeoutNak_retries :
    RetryLaw ⟨1, 202, 0, 0, 0⟩ tokIN 1 nakTimeoutNak ∧
      tokens (events (xferDispatchPkt ⟨1, 202, 0, 0, 0⟩ tokIN 1) nakTimeoutNak) = [1, 1, 1, 1] :=
  ⟨xferDispatchPkt_retries (by decide) tokIN 1 nakTimeoutNak, by decide +kernel⟩

end TetrisFpga.Usb
