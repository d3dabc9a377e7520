import BoomCore.Proof.Environment

/-!
# The fetch protocol and its path

Responses may come after any delay, twice, in any order and with identifiers of no request; a
response that carries the identifier of a request comes after the step that sent the request and
echoes its address (`Core.AnswersEcho`). The frontend then accepts only the answer of the last
request, and that once; it sends the next request after that; and the address of that request is
the one that follows the accepted instruction on the path of the execution
(`fetch_protocol`).

The proof runs through the three phases of the handshake (`FetchPhase`): nothing has been requested,
the last request waits for its answer, or its answer has been accepted.
-/

set_option autoImplicit false
set_option relaxedAutoImplicit false

namespace BoomCore

/-! ### Statements -/

/-- The address behind an instruction at `address` with the result `r`: the redirect target, its two
low bits cleared, after a control transfer that raised `mispredict`, and the next word otherwise. -/
def AluResult.nextAddress (r : AluResult) (address : BitVec 64) : BitVec 64 :=
  if r.redirects then r.redirectPc &&& ~~~3#64 else address + 4

/-- The result belongs to the instruction of the response, when there is one: an instruction that a
full reorder buffer drops has none. -/
def AluResult.ExecutionOf (r : AluResult) (resp : ImemResponse) : Prop :=
  r.valid = true → r.uop.debugPc = resp.address ∧ r.uop.inst = resp.instruction

namespace Core

variable (input : ℕ → Inputs)

/-- Before step `n` a response that carries the identifier of a request comes in a later step than
the request and has its address. -/
def AnswersEcho (n : ℕ) : Prop :=
  ∀ m < n, ∀ resp ∈ (input m).imemResp, ∀ k < n, ∀ req ∈ fetchRequests input k,
    resp.fetchId = req.fetchId → k < m ∧ resp.address = req.address

instance (n : ℕ) : Decidable (AnswersEcho input n) :=
  inferInstanceAs (Decidable (∀ m < n, ∀ resp ∈ (input m).imemResp, ∀ k < n, ∀ req ∈ _, _ → _))

theorem AnswersEcho.answeredLater {n : ℕ} (h : AnswersEcho input n) : AnsweredLater input n :=
  fun m hm resp hresp req hreq heq ↦
    absurd (h m hm resp hresp m hm req hreq heq).1 (Nat.lt_irrefl m)

theorem AnswersEcho.mono {m n : ℕ} (h : AnswersEcho input n) (hmn : m ≤ n) :
    AnswersEcho input m :=
  fun j hj resp hresp k hk ↦ h j (hj.trans_le hmn) resp hresp k (hk.trans_le hmn)

/-- The result of the instruction that step `n` executes. -/
def executed (n : ℕ) : AluResult := (run input (n + 1)).execute.aluResult

/-- The requests before step `n`, in order. -/
def sentRequests (n : ℕ) : List ImemRequest := Run.outputs (fetchRequests input) n

/-- The responses that are accepted before step `n`, in order. -/
def acceptedResponses (n : ℕ) : List ImemResponse :=
  Run.outputs (fun m ↦ (accepted input m).toList) n

/-- The request of step `k` is the last one before step `n`. -/
structure LastRequest (n k : ℕ) (req : ImemRequest) : Prop where
  lt : k < n
  sent : fetchRequests input k = [req]
  last : ∀ j, k < j → j < n → fetchRequests input j = []

/-- The response that step `j` accepts answers the request of step `k`, the last one before. Nothing
has been accepted since the request was sent. -/
structure Answers (k j : ℕ) (req : ImemRequest) (resp : ImemResponse) : Prop where
  request : LastRequest input j k req
  alone : fetchRequests input j = []
  accepted : accepted input j = some resp
  fetchId : resp.fetchId = req.fetchId
  address : resp.address = req.address
  first : ∀ i, k ≤ i → i < j → Core.accepted input i = none

end Core

/-! ### One step -/

section Step

variable {s : BoomCoreState} {u : Inputs} (h : StepInv s.asSystem)

include h

/-- A step that accepts nothing: the frontend waits, or sends the request for its pc. -/
theorem StepInv.fetch_of_none (hacc : s.acceptedResponse u = none) :
    (s.next u).execute = {} ∧ (s.next u).frontend.pc = s.asSystem.redirected.pc ∧
      ((s.fetchRequests u = [] ∧
          (s.next u).frontend.requestSent = s.asSystem.redirected.requestSent ∧
          (s.next u).frontend.pendingFetchId = s.frontend.pendingFetchId) ∨
        (s.asSystem.redirected.requestSent = false ∧
          s.fetchRequests u =
            [{ address := s.asSystem.redirected.pc, fetchId := s.frontend.fetchId }] ∧
          (s.next u).frontend.requestSent = true ∧
          (s.next u).frontend.pendingFetchId = s.frontend.fetchId)) := by
  obtain ⟨hmirrors, hnone⟩ := h.mirrors_of_none (fun _ ↦ 0) hacc
  obtain ⟨resp, hnext⟩ := hmirrors.next
  rw [hmirrors.fetchRequests, hnext]
  refine ⟨h.cycle_execute_of_none _ hnone, ?_⟩
  obtain ⟨hnew, hpending, -⟩ := s.asSystem.redirected_ids
  rw [asSystem_core] at hnew hpending
  dsimp only [BoomCoreState.withFrontend, FrontendState.withFault]
  rw [h.cycle_frontend, ← hnew, ← hpending]
  rcases h.fetch.afterFetch_of_none _ hnone with
    ⟨hfrontend, hreq, -⟩ | ⟨hsent, -, hfrontend, hreq, -⟩
  · rw [hfrontend, hreq]
    exact ⟨rfl, Or.inl ⟨rfl, rfl, rfl⟩⟩
  · rw [hfrontend, hreq]
    exact ⟨rfl, Or.inr ⟨hsent, rfl, rfl, rfl⟩⟩

/-- A step that accepts and sends nothing leaves the frontend at its address. -/
theorem StepInv.stays_of_none (hacc : s.acceptedResponse u = none) (hreq : s.fetchRequests u = []) :
    (s.asSystem.redirected.requestSent = false →
        (s.next u).asSystem.redirected.requestSent = false) ∧
      (s.next u).asSystem.redirected.pc = s.asSystem.redirected.pc := by
  obtain ⟨hexecute, hpc, ⟨-, hsame, -⟩ | ⟨-, hone, -⟩⟩ := h.fetch_of_none hacc
  · refine ⟨fun hidle ↦ (System.redirected_ids _).2.2 (hsame.trans hidle), ?_⟩
    rw [System.redirected_pc, ← hpc]
    show (if (s.next u).execute.aluResult.redirects = true then _ else _) = _
    rw [hexecute]
    rfl
  · rw [hone] at hreq
    simp at hreq

/-- Assumes: no response comes in the step of its request. An idle frontend accepts nothing. -/
theorem StepInv.accepted_none_of_idle
    (hlater : ∀ resp ∈ u.imemResp, ∀ req ∈ s.fetchRequests u, resp.fetchId ≠ req.fetchId)
    (hidle : s.asSystem.redirected.requestSent = false) : s.acceptedResponse u = none := by
  cases hacc : s.acceptedResponse u with
  | none => rfl
  | some resp =>
    obtain ⟨-, -, hsent, -⟩ := h.accepted_asSystem hacc (hlater resp (imemResp_of_accepted hacc))
    have hnot := h.fetch.redirected_sent hsent
    rw [hidle] at hnot
    simp at hnot

/-- A step that accepts the answer of the request in flight: the frontend moves to the address
behind the instruction. -/
theorem StepInv.fetch_of_some {resp : ImemResponse} (htail : s.rob.tail < robDepth)
    (hacc : s.acceptedResponse u = some resp)
    (hlater : ∀ req ∈ s.fetchRequests u, resp.fetchId ≠ req.fetchId) :
    s.fetchRequests u = [] ∧ s.frontend.requestSent = true ∧
      resp.fetchId = s.frontend.pendingFetchId ∧
      (s.next u).asSystem.redirected.requestSent = false ∧
      (s.next u).asSystem.redirected.pc =
        (s.next u).execute.aluResult.nextAddress resp.address ∧
      (s.next u).execute.aluResult.ExecutionOf resp := by
  obtain ⟨-, -, hsent, -, hid⟩ := h.accepted_asSystem hacc hlater
  obtain ⟨hmirrors, hsome⟩ := h.mirrors_of_some hacc hlater
  obtain ⟨resp', hnext⟩ := hmirrors.next
  have hfetching := h.fetching resp hsent
  obtain ⟨hfrontend, hreq, -⟩ := hfetching.fetch.afterFetch_of_some _ hsome
  rw [← hfetching.cycle_frontend] at hfrontend
  refine ⟨hmirrors.fetchRequests.trans hreq, hsent, hid, ?_, ?_, ?_⟩
  · refine (System.redirected_ids _).2.2 ?_
    rw [asSystem_core, hnext]
    dsimp only [BoomCoreState.withFrontend, FrontendState.withFault]
    rw [hfrontend]
  · rw [System.redirected_pc, asSystem_core, hnext]
    dsimp only [BoomCoreState.withFrontend, FrontendState.withFault]
    rw [hfrontend]
    rfl
  · rw [hnext]
    dsimp only [BoomCoreState.withFrontend]
    rw [System.cycle_execute]
    cases hfull : s.rob.isFull with
    | true =>
      rw [(hfetching.atCommit_idle _ (Or.inr hfull)).2.1]
      intro hvalid
      simp at hvalid
    | false =>
      rw [(hfetching.atCommit_some _ hsome hfull htail).2.1]
      exact fun _ ↦ ⟨dispatchedResult_debugPc _ _ _, dispatchedResult_inst _ _ _⟩

end Step

/-! ### The phases of a run -/

section Runs

open BoomCore.Core

variable (input : ℕ → Inputs)

/-- Where the handshake stands before step `n`. -/
inductive FetchPhase (n : ℕ) : Prop
  | fresh (hnone : ∀ k < n, fetchRequests input k = [])
      (hcount : sentRequests input n = [] ∧ acceptedResponses input n = [])
      (hidle : (run input n).asSystem.redirected.requestSent = false)
      (hpc : (run input n).asSystem.redirected.pc = resetVector)
  | waiting (k : ℕ) (req : ImemRequest) (hlast : LastRequest input n k req)
      (hopen : ∀ i, k ≤ i → i < n → accepted input i = none)
      (hcount : (sentRequests input n).length = (acceptedResponses input n).length + 1)
      (hsent : (run input n).frontend.requestSent = true)
      (hid : (run input n).frontend.pendingFetchId = req.fetchId)
  | answered (k j : ℕ) (req : ImemRequest) (resp : ImemResponse)
      (hlast : LastRequest input n k req) (hanswers : Answers input k j req resp) (hj : j < n)
      (hcount : (sentRequests input n).length = (acceptedResponses input n).length)
      (hidle : (run input n).asSystem.redirected.requestSent = false)
      (hpc : (run input n).asSystem.redirected.pc =
        (Core.executed input j).nextAddress resp.address)
      (hexecuted : (Core.executed input j).ExecutionOf resp)

theorem fetchPhase_zero : FetchPhase input 0 :=
  .fresh (fun k hk ↦ absurd hk (Nat.not_lt_zero k)) ⟨rfl, rfl⟩ rfl rfl

theorem stepInv_coreRun (n : ℕ) (hlater : AnsweredLater input n) :
    StepInv (run input n).asSystem :=
  (sysInv_coreRun input n hlater).step

variable {input} {n : ℕ}

/-- The last request stays the last one while nothing is sent. -/
theorem Core.LastRequest.succ {k : ℕ} {req : ImemRequest} (h : LastRequest input n k req)
    (hnone : fetchRequests input n = []) : LastRequest input (n + 1) k req := by
  refine ⟨Nat.lt_succ_of_lt h.lt, h.sent, fun j hj hjn ↦ ?_⟩
  rcases Nat.lt_succ_iff_lt_or_eq.mp hjn with hlt | rfl
  · exact h.last j hj hlt
  · exact hnone

/-- The address of a request that may be sent in step `n`: the reset vector when nothing has been
requested, and otherwise the one behind the last accepted instruction. -/
def NextAddress (input : ℕ → Inputs) (n : ℕ) (address : BitVec 64) : Prop :=
  ((∀ k < n, fetchRequests input k = []) ∧ address = resetVector) ∨
    ∃ k j req resp, LastRequest input n k req ∧ Answers input k j req resp ∧ j < n ∧
      address = (Core.executed input j).nextAddress resp.address ∧
      (Core.executed input j).ExecutionOf resp

theorem counts_of_none (hacc : accepted input n = none) (hreq : fetchRequests input n = []) :
    sentRequests input (n + 1) = sentRequests input n ∧
      acceptedResponses input (n + 1) = acceptedResponses input n := by
  unfold sentRequests acceptedResponses
  rw [Run.outputs_succ, Run.outputs_succ, hacc, hreq]
  exact ⟨List.append_nil _, List.append_nil _⟩

/-- A phase in which the frontend waits for no response. -/
theorem FetchPhase.idle_cases (h : FetchPhase input n)
    (hidle : (run input n).asSystem.redirected.requestSent = false)
    (hinv : StepInv (run input n).asSystem) :
    NextAddress input n (run input n).asSystem.redirected.pc ∧
      (sentRequests input n).length = (acceptedResponses input n).length := by
  cases h with
  | fresh hnone hcount hidle hpc =>
    exact ⟨Or.inl ⟨hnone, hpc⟩, by rw [hcount.1, hcount.2]; rfl⟩
  | waiting k req hlast hopen hcount hsent hid =>
    have hnot := hinv.fetch.redirected_sent hsent
    rw [hidle] at hnot
    simp at hnot
  | answered k j req resp hlast hanswers hj hcount hidle hpc hexecuted =>
    exact ⟨Or.inr ⟨k, j, req, resp, hlast, hanswers, hj, hpc, hexecuted⟩, hcount⟩

section Next

variable (h : FetchPhase input n) (hecho : AnswersEcho input (n + 1))

include h hecho

/-- An accepted response answers the last request, and its step sends nothing. -/
theorem FetchPhase.answers {resp : ImemResponse} (hacc : accepted input n = some resp) :
    ∃ k req, Answers input k n req resp ∧
      (sentRequests input n).length = (acceptedResponses input n).length + 1 := by
  have hlater := hecho.answeredLater
  have hsys := sysInv_coreRun input n fun m hm ↦ hlater m (Nat.lt_succ_of_lt hm)
  have hresp := imemResp_of_accepted hacc
  obtain ⟨hreq, hsent, hid, -⟩ := hsys.step.fetch_of_some hsys.tail_lt hacc
    (hlater n (Nat.lt_succ_self n) resp hresp)
  have hred := hsys.step.fetch.redirected_sent hsent
  cases h with
  | fresh hnone hcount hidle hpc =>
    rw [hidle] at hred
    simp at hred
  | waiting k req hlast hopen hcount hsent' hid' =>
    have hsame := hid.trans hid'
    obtain ⟨-, haddress⟩ := hecho n (Nat.lt_succ_self n) resp hresp k
      (Nat.lt_succ_of_lt hlast.lt) req (by rw [hlast.sent]; exact List.mem_singleton.mpr rfl) hsame
    exact ⟨k, req, ⟨hlast, hreq, hacc, hsame, haddress, hopen⟩, hcount⟩
  | answered k j req resp' hlast hanswers hj hcount hidle hpc hexecuted =>
    rw [hidle] at hred
    simp at hred

theorem FetchPhase.next : FetchPhase input (n + 1) := by
  have hlater := hecho.answeredLater
  have hsys := sysInv_coreRun input n fun m hm ↦ hlater m (Nat.lt_succ_of_lt hm)
  have hinv := hsys.step
  cases hacc : accepted input n with
  | none =>
    obtain ⟨hexecute, hpc, ⟨hreq, hsame, hid⟩ | ⟨hidle, hreq, hsent, hid⟩⟩ :=
      hinv.fetch_of_none hacc
    · obtain ⟨hsentCount, haccCount⟩ := counts_of_none hacc hreq
      have hpc' : (run input (n + 1)).asSystem.redirected.pc =
          (run input n).asSystem.redirected.pc := by
        rw [System.redirected_pc, ← hpc]
        show ite (((run input n).next (input n)).execute.aluResult.redirects = true) _ _ = _
        rw [hexecute]
        rfl
      have hstill : (run input n).asSystem.redirected.requestSent = false →
          (run input (n + 1)).asSystem.redirected.requestSent = false := fun hidle ↦
        (System.redirected_ids _).2.2 (hsame.trans hidle)
      cases h with
      | fresh hnone hcount hidle hstart =>
        refine .fresh (fun k hk ↦ ?_) (by rw [hsentCount, haccCount]; exact hcount) (hstill hidle)
          (hpc'.trans hstart)
        rcases Nat.lt_succ_iff_lt_or_eq.mp hk with hlt | rfl
        · exact hnone k hlt
        · exact hreq
      | waiting k req hlast hopen hcount hsent' hid' =>
        refine .waiting k req (hlast.succ hreq) (fun i hi hin ↦ ?_)
          (by rw [hsentCount, haccCount]; exact hcount)
          (hsame.trans (hinv.fetch.redirected_sent hsent')) (hid.trans hid')
        rcases Nat.lt_succ_iff_lt_or_eq.mp hin with hlt | rfl
        · exact hopen i hi hlt
        · exact hacc
      | answered k j req resp hlast hanswers hj hcount hidle hnext hexecuted =>
        exact .answered k j req resp (hlast.succ hreq) hanswers (Nat.lt_succ_of_lt hj)
          (by rw [hsentCount, haccCount]; exact hcount) (hstill hidle) (hpc'.trans hnext) hexecuted
    · obtain ⟨-, hcount⟩ := h.idle_cases hidle hinv
      refine .waiting n _ ⟨Nat.lt_succ_self n, hreq, fun j hj hjn ↦ ?_⟩ (fun i hi hin ↦ ?_) ?_ hsent
        hid
      · omega
      · rw [show i = n by omega]
        exact hacc
      · unfold sentRequests acceptedResponses at hcount ⊢
        rw [Run.outputs_succ, Run.outputs_succ, List.length_append, List.length_append, hacc,
          show fetchRequests input n = [_] from hreq, hcount]
        rfl
  | some resp =>
    obtain ⟨k, req, hanswers, hcount⟩ := h.answers hecho hacc
    have hresp := imemResp_of_accepted hacc
    obtain ⟨hreq, -, -, hidle, hpc, hexecuted⟩ := hinv.fetch_of_some hsys.tail_lt hacc
      (hlater n (Nat.lt_succ_self n) resp hresp)
    refine .answered k n req resp (hanswers.request.succ hreq) hanswers (Nat.lt_succ_self n) ?_
      hidle hpc hexecuted
    unfold sentRequests acceptedResponses at hcount ⊢
    rw [Run.outputs_succ, Run.outputs_succ, List.length_append, List.length_append, hacc,
      show fetchRequests input n = [] from hreq, hcount]
    rfl

end Next

theorem fetchPhase_run (n : ℕ) (hecho : AnswersEcho input n) : FetchPhase input n := by
  induction n with
  | zero => exact fetchPhase_zero input
  | succ n ih => exact (ih (hecho.mono input (Nat.le_succ n))).next hecho

/-- Assumes: before step `n` a response that carries the identifier of a request comes after it and
echoes its address. An accepted response answers the last request, which has not been answered
before; at most one request waits for its answer; a step sends at most one request, for the reset
vector when it is the first one and otherwise for the address behind the last accepted instruction,
which is the answer of the request before. -/
theorem fetch_protocol (input : ℕ → Inputs) (n : ℕ) (hecho : AnswersEcho input n) :
    (∀ m < n, ∀ resp, accepted input m = some resp → ∃ k req, Answers input k m req resp) ∧
      (∀ m ≤ n, (sentRequests input m).length = (acceptedResponses input m).length ∨
        (sentRequests input m).length = (acceptedResponses input m).length + 1) ∧
      ∀ m < n, ∀ req ∈ fetchRequests input m,
        fetchRequests input m = [req] ∧ NextAddress input m req.address := by
  have hphase : ∀ m ≤ n, FetchPhase input m := fun m hm ↦ fetchPhase_run m (hecho.mono input hm)
  refine ⟨fun m hm resp hacc ↦ ?_, fun m hm ↦ ?_, fun m hm req hreq ↦ ?_⟩
  · obtain ⟨k, req, hanswers, -⟩ := (hphase m hm.le).answers (hecho.mono input hm) hacc
    exact ⟨k, req, hanswers⟩
  · cases hphase m hm with
    | fresh hnone hcount =>
      rw [hcount.1, hcount.2]
      exact Or.inl rfl
    | waiting k req hlast hopen hcount => exact Or.inr hcount
    | answered k j req resp hlast hanswers hj hcount => exact Or.inl hcount
  · have hecho' := hecho.mono input hm
    have hsys := sysInv_coreRun input m fun i hi ↦
      hecho'.answeredLater input i (Nat.lt_succ_of_lt hi)
    cases hacc : accepted input m with
    | none =>
      obtain ⟨-, -, ⟨hnone, -⟩ | ⟨hidle, hone, -⟩⟩ := hsys.step.fetch_of_none hacc
      · rw [show fetchRequests input m = [] from hnone] at hreq
        simp at hreq
      · rw [show fetchRequests input m = [_] from hone, List.mem_singleton] at hreq
        rw [hreq]
        exact ⟨hone, ((hphase m hm.le).idle_cases hidle hsys.step).1⟩
    | some resp =>
      obtain ⟨k, req', hanswers, -⟩ := (hphase m hm.le).answers hecho' hacc
      rw [hanswers.alone] at hreq
      simp at hreq

end Runs

/-! ### Stale and foreign responses -/

/-- `JAL x0, 8` at the reset vector is answered, and answered again; a response of nobody follows,
and then the answer for the target of the jump. -/
def staleResponses : ℕ → Inputs := fun m ↦
  { imemResp :=
      [none,
        some { address := resetVector, fetchId := 0, instruction := 0x0080006F#32 },
        some { address := resetVector, fetchId := 0, instruction := 0x0080006F#32 },
        some { address := 0, fetchId := 77, instruction := 0x00000013#32 },
        some { address := resetVector + 8, fetchId := 1,
               instruction := 0x00000013#32 }].getD m none }

set_option maxRecDepth 100000 in
/-- `fetch_protocol` for these responses: the answer for the target of the jump is accepted in
step 4. -/
theorem fetch_protocol_staleResponses :
    ∃ k req resp, Core.accepted staleResponses 4 = some resp ∧
      Core.Answers staleResponses k 4 req resp := by
  have hsome : (Core.accepted staleResponses 4).isSome = true := by decide +kernel
  obtain ⟨resp, hacc⟩ := Option.isSome_iff_exists.mp hsome
  obtain ⟨k, req, hanswers⟩ :=
    (fetch_protocol staleResponses 5 (by decide +kernel)).1 4 (by decide) resp hacc
  exact ⟨k, req, resp, hacc, hanswers⟩

end BoomCore
