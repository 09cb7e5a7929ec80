import SourceRoute.Proofs.Delivery

/-!
# Safety of runs

A packet goes through any nodes, with whatever keys, seeds and clocks they have, in whatever order.
A step leaves the path well formed, moves it by one hop if the packet is forwarded and not at all
otherwise, and is refused for its hop only, never for its form.  So a run never spoils a packet, and
counting the steps that forward it tells where it is.
-/

namespace SourceRoute

/-- The second buffer is as long as the first one and has the same bytes behind the first byte. -/
structure Bytes.SameBehindFirst (b after : Bytes) : Prop where
  length_eq : after.length = b.length
  getElem?_eq : ∀ i, 0 < i → after[i]? = b[i]?

namespace Bytes.SameBehindFirst

theorem refl (b : Bytes) : b.SameBehindFirst b := ⟨rfl, fun _ _ => rfl⟩

theorem trans {a b c : Bytes} (h : a.SameBehindFirst b) (h' : b.SameBehindFirst c) :
    a.SameBehindFirst c where
  length_eq := h'.length_eq.trans h.length_eq
  getElem?_eq i hi := (h'.getElem?_eq i hi).trans (h.getElem?_eq i hi)

end Bytes.SameBehindFirst

/-! ## One step -/

/-- The fault is that the hop is no longer valid or does not carry the right code. -/
def PathFault.IsAboutHop (hop : Nat) (fault : PathFault) : Prop :=
  (∃ expiredAt, fault = .expired hop expiredAt) ∨ fault = .wrongMac hop

/-- The buffer decodes to the path, placed at a hop, with `rest` behind it. -/
structure Path.InPacket (p : Path) (hop : Nat) (rest b : Bytes) : Prop where
  sizes : ValidSizes p.sizes
  lt : hop < p.hopCount
  decode : Path.decode b = .ok (p.placedAt hop, rest)

/-- What becomes of a packet with a path at a hop: it is refused for its hop, delivered at the last
hop, or forwarded to the next one. -/
inductive Path.Handled (p : Path) (hop : Nat) (rest b : Bytes) :
    Except PathFault Outcome × Bytes → Prop where
  | refused {fault : PathFault} (hfault : fault.IsAboutHop hop) :
    p.Handled hop rest b (.error fault, b)
  | delivered (hlast : hop + 1 = p.hopCount) : p.Handled hop rest b (.ok .delivered, b)
  | forwarded {change : Bool} {after : Bytes} (hnext : p.InPacket (hop + 1) rest after)
    (hsame : b.SameBehindFirst after) : p.Handled hop rest b (.ok (.forwarded change), after)

section

variable {p : Path} {hop : Nat} {rest b : Bytes}

theorem Path.inPacket_of_decode (hdecode : Path.decode b = .ok (p, rest)) :
    p.InPacket p.currentHop.toNat rest b where
  sizes := (Path.wellFormed_of_decode hdecode).sizes
  lt := (Path.wellFormed_of_decode hdecode).currentHop_lt
  decode := by rw [(Path.wellFormed_of_decode hdecode).placedAt_currentHop, hdecode]

theorem Path.Handled.sameBehindFirst {result : Except PathFault Outcome × Bytes}
    (h : p.Handled hop rest b result) : b.SameBehindFirst result.2 := by
  cases h with
  | refused => exact .refl b
  | delivered => exact .refl b
  | forwarded _ hsame => exact hsame

namespace Router

variable (r : Router) (seed : Option PeeringSeed) (now : Instant)

/-- A well-formed path is refused for its current hop only. -/
theorem isAboutHop_of_judge {p : Path} (hp : p.WellFormed) {info : InfoField} {field : HopField}
    {fault : PathFault} (hjudge : r.judge p info field seed now = .error fault) :
    fault.IsAboutHop p.currentHop.toNat := by
  simp only [judge] at hjudge
  split at hjudge
  · exact .inl ⟨_, (Except.error.inj hjudge).symm⟩
  split at hjudge
  · exact .inr (Except.error.inj hjudge).symm
  -- advancing fails at the last hop only, and then the packet is delivered
  rcases Nat.lt_or_ge (p.currentHop.toNat + 1) p.hopCount with hnext | hend
  · simp [hp.advance_of_lt hnext] at hjudge
  · simp [hp.advance_of_last hend] at hjudge

/-- One step of a node. -/
theorem handled_of_inPacket (h : p.InPacket hop rest b) :
    p.Handled hop rest b (r.handle b seed now) := by
  obtain ⟨v, hok, hplaced⟩ := Path.decode_eq_ok_iff.mp h.decode
  obtain ⟨rfl, hsound, hfault⟩ := PathView.ofBytes_eq_ok_iff.mp hok
  have hp := hsound.wellFormed_toPath hfault
  have hindex : v.toPath.currentHop.toNat = hop := by
    rw [hplaced, Path.currentHop_placedAt h.sizes h.lt]
  have hcount : v.toPath.hopCount = p.hopCount := by
    rw [hplaced, Path.hopCount_placedAt]
  obtain ⟨current, hcurrent, hcurrentIndex, hsegment, -, -⟩ := exists_current hsound hfault
  rw [r.handle_of_ofBytes seed now hok]
  -- a node refuses a packet, delivers it, or forwards it, which it does not at the last hop
  rcases r.handleView_cases seed now hsound hfault hcurrent hcurrentIndex hsegment with
    ⟨fault, hjudge, hview⟩ | ⟨-, hadvance, hview⟩ | ⟨next, hadvance, -, hview, hsound', hfault'⟩
  · rw [hview]
    exact .refused (hindex ▸ r.isAboutHop_of_judge seed now hp hjudge)
  · rw [hview]
    refine .delivered ?_
    rcases Nat.lt_or_ge (v.toPath.currentHop.toNat + 1) v.toPath.hopCount with hnext | hend
    · simp [hp.advance_of_lt hnext] at hadvance
    · have hlt := h.lt
      omega
  · rw [hview]
    rcases Nat.lt_or_ge (v.toPath.currentHop.toNat + 1) v.toPath.hopCount with hnext | hend
    · -- the view that was moved on reads as the path at the next hop
      have hmoved : (v.moveTo next).toPath = p.placedAt (hop + 1) := by
        rw [hp.advance_of_lt hnext, hindex, hplaced, Path.placedAt_placedAt] at hadvance
        exact (Except.ok.inj hadvance).symm
      refine .forwarded ⟨h.sizes, by omega, ?_⟩ ⟨?_, ?_⟩
      · rw [hsound'.decode_append hfault', hmoved]
      · rw [List.length_append, List.length_append, PathView.length_moveTo]
      · intro i hi
        exact getElem?_moveTo_append v next rest hi
    · simp [hp.advance_of_last hend] at hadvance

/-- Whatever the buffer holds, a node changes nothing behind the first byte. -/
theorem sameBehindFirst_handle (b : Bytes) : b.SameBehindFirst (r.handle b seed now).2 := by
  cases hdecode : Path.decode b with
  | error cause =>
    rw [r.handle_of_malformed seed now (Path.decode_eq_error_iff.mp hdecode)]
    exact .refl b
  | ok found =>
    have hstep := r.handled_of_inPacket seed now (Path.inPacket_of_decode hdecode)
    exact hstep.sameBehindFirst

end Router

end

/-! ## Runs -/

/-- Whether a node has forwarded the packet. -/
def isForwarded : Except PathFault Outcome → Bool
  | .ok (.forwarded _) => true
  | _ => false

/-- How often the packet has been forwarded. -/
def forwardings (answers : List (Except PathFault Outcome)) : Nat := answers.countP isForwarded

theorem forwardings_cons_error (fault : PathFault)
    (answers : List (Except PathFault Outcome)) :
    forwardings (.error fault :: answers) = forwardings answers := rfl

theorem forwardings_cons_delivered (answers : List (Except PathFault Outcome)) :
    forwardings (.ok .delivered :: answers) = forwardings answers := rfl

theorem forwardings_cons_forwarded (change : Bool)
    (answers : List (Except PathFault Outcome)) :
    forwardings (.ok (.forwarded change) :: answers) = forwardings answers + 1 :=
  List.countP_cons_of_pos rfl

namespace Visit

@[simp] theorem run_nil (b : Bytes) : run [] b = ([], b) := rfl

theorem run_cons (visit : Visit) (visits : List Visit) (b : Bytes) :
    run (visit :: visits) b =
      ((visit.router.handle b visit.seed visit.now).1 ::
          (run visits (visit.router.handle b visit.seed visit.now).2).1,
        (run visits (visit.router.handle b visit.seed visit.now).2).2) := rfl

/-- The bytes of the packet behind the first `n` nodes. -/
def bytesAfter (visits : List Visit) (n : Nat) (b : Bytes) : Bytes := (run (visits.take n) b).2

theorem length_answers (visits : List Visit) (b : Bytes) :
    (run visits b).1.length = visits.length := by
  induction visits generalizing b with
  | nil => rfl
  | cons visit visits ih => rw [run_cons, List.length_cons, ih, List.length_cons]

/-- The first answers of a run are those of the first nodes alone. -/
theorem answers_take (visits : List Visit) (n : Nat) (b : Bytes) :
    (run (visits.take n) b).1 = (run visits b).1.take n := by
  induction visits generalizing n b with
  | nil => simp
  | cons visit visits ih =>
    cases n with
    | zero => rfl
    | succ n => rw [List.take_succ_cons, run_cons, run_cons, List.take_succ_cons, ih]

theorem sameBehindFirst_run (visits : List Visit) (b : Bytes) :
    b.SameBehindFirst (run visits b).2 := by
  induction visits generalizing b with
  | nil => exact .refl b
  | cons visit visits ih =>
    exact (visit.router.sameBehindFirst_handle visit.seed visit.now b).trans (ih _)

/-- Bytes that do not decode are refused for the same reason by every node. -/
theorem run_of_malformed {b : Bytes} {cause : Malformed} (hdecode : Path.decode b = .error cause)
    (visits : List Visit) :
    run visits b = (List.replicate visits.length (.error (.malformed cause)), b) := by
  induction visits with
  | nil => rfl
  | cons visit visits ih =>
    have hstep := visit.router.handle_of_malformed visit.seed visit.now
      (Path.decode_eq_error_iff.mp hdecode)
    rw [run_cons, hstep, ih, List.length_cons, List.replicate_succ]

section

variable {p : Path} {hop : Nat} {rest b : Bytes}

/-- The path is moved on by as many hops as there are nodes that forward it. -/
theorem inPacket_run (h : p.InPacket hop rest b) (visits : List Visit) :
    p.InPacket (hop + forwardings (run visits b).1) rest (run visits b).2 := by
  induction visits generalizing hop b with
  | nil => exact h
  | cons visit visits ih =>
    have hstep := visit.router.handled_of_inPacket visit.seed visit.now h
    rw [run_cons]
    generalize visit.router.handle b visit.seed visit.now = result at hstep ⊢
    -- the invariant holds at the same hop, unless the node forwarded the packet
    cases hstep with
    | refused =>
      rw [forwardings_cons_error]
      exact ih h
    | delivered =>
      rw [forwardings_cons_delivered]
      exact ih h
    | forwarded hnext =>
      rw [forwardings_cons_forwarded, Nat.add_comm _ 1, ← Nat.add_assoc]
      exact ih hnext

/-- Nothing is forwarded any more from the last hop. -/
theorem not_isForwarded_of_last (h : p.InPacket hop rest b) (hlast : hop + 1 = p.hopCount)
    (visits : List Visit) : ∀ answer ∈ (run visits b).1, isForwarded answer = false := by
  have hlt := (inPacket_run h visits).lt
  -- a run with a forwarding would end past the last hop
  have hnone : (run visits b).1.countP isForwarded = 0 := by
    change forwardings (run visits b).1 = 0
    omega
  intro answer hmem
  simpa using List.countP_eq_zero.mp hnone answer hmem

/-- Every refusal in a run is for a hop of the path. -/
theorem isAboutHop_of_mem_run (h : p.InPacket hop rest b) {visits : List Visit} {fault : PathFault}
    (hmem : .error fault ∈ (run visits b).1) : ∃ i < p.hopCount, fault.IsAboutHop i := by
  induction visits generalizing hop b with
  | nil => simp at hmem
  | cons visit visits ih =>
    have hstep := visit.router.handled_of_inPacket visit.seed visit.now h
    rw [run_cons] at hmem
    generalize visit.router.handle b visit.seed visit.now = result at hstep hmem
    -- the refusal is the one of this step or of a later one
    cases hstep with
    | refused hfault =>
      rcases List.mem_cons.mp hmem with heq | hmem
      · rw [Except.error.inj heq]
        exact ⟨hop, h.lt, hfault⟩
      · exact ih h hmem
    | delivered => exact ih h (List.mem_of_ne_of_mem (by simp) hmem)
    | forwarded hnext => exact ih hnext (List.mem_of_ne_of_mem (by simp) hmem)

/-- A delivered packet stays where it is. -/
theorem pairwise_run (h : p.InPacket hop rest b) (visits : List Visit) :
    (run visits b).1.Pairwise fun earlier later =>
      earlier = .ok .delivered → isForwarded later = false := by
  induction visits generalizing hop b with
  | nil => exact .nil
  | cons visit visits ih =>
    have hstep := visit.router.handled_of_inPacket visit.seed visit.now h
    rw [run_cons]
    generalize visit.router.handle b visit.seed visit.now = result at hstep ⊢
    cases hstep with
    | refused => exact .cons (fun _ _ hdelivered => by simp at hdelivered) (ih h)
    | delivered hlast =>
      exact .cons (fun answer hmem _ => not_isForwarded_of_last h hlast visits answer hmem) (ih h)
    | forwarded hnext => exact .cons (fun _ _ hdelivered => by simp at hdelivered) (ih hnext)

end

/-- No run spoils a packet.  Whatever the nodes, their keys, seeds and clocks are, the buffer keeps
its length and all bytes but the first one.  Bytes that do not decode are refused by every node for
the reason that decoding gives, and are left as they are.  Otherwise the buffer decodes behind every
node to the same segments, at a hop of the path that is as far from the initial one as the packet
has been forwarded, and in the segment that owns this hop; no node finds the path malformed or
exhausted; and a packet that has been delivered is never forwarded again. -/
theorem run_safe (visits : List Visit) (b : Bytes) :
    (run visits b).1.length = visits.length ∧
    (∀ n, b.SameBehindFirst (bytesAfter visits n b)) ∧
    match Path.decode b with
    | .error cause =>
      (∀ answer ∈ (run visits b).1, answer = .error (.malformed cause)) ∧
        ∀ n, bytesAfter visits n b = b
    | .ok (p, rest) =>
      (∀ n, ∃ q, Path.decode (bytesAfter visits n b) = .ok (q, rest) ∧ q.segments = p.segments ∧
        q.currentHop.toNat = p.currentHop.toNat + forwardings ((run visits b).1.take n) ∧
        q.currentHop.toNat < q.hopCount ∧
        (q.locate? q.currentHop.toNat).map Prod.fst = some q.currentInfo.toNat) ∧
      (∀ answer ∈ (run visits b).1, (∀ cause, answer ≠ .error (.malformed cause)) ∧
        ∀ hopCount, answer ≠ .error (.exhausted hopCount)) ∧
      (run visits b).1.Pairwise fun earlier later =>
        earlier = .ok .delivered → ∀ change, later ≠ .ok (.forwarded change) := by
  refine ⟨length_answers visits b, fun n => sameBehindFirst_run _ b, ?_⟩
  split
  next cause hdecode =>
    refine ⟨?_, fun n => ?_⟩
    · rw [run_of_malformed hdecode]
      exact fun answer hmem => List.eq_of_mem_replicate hmem
    · rw [bytesAfter, run_of_malformed hdecode]
  next p rest hdecode =>
    have h := Path.inPacket_of_decode hdecode
    refine ⟨fun n => ?_, ?_, ?_⟩
    · -- the first answers of the run are those of a run of the first nodes
      have hafter := inPacket_run h (visits.take n)
      rw [answers_take] at hafter
      have hq := Path.wellFormed_of_decode hafter.decode
      have hhop := Path.currentHop_placedAt hafter.sizes hafter.lt
      obtain ⟨k, hlocate⟩ := hq.position
      refine ⟨_, hafter.decode, rfl, hhop, hq.currentHop_lt, ?_⟩
      rw [Path.locate?, hlocate]
      rfl
    · intro answer hmem
      constructor
      · -- a refusal for the form of the path is not one for a hop
        rintro cause rfl
        obtain ⟨i, -, hfault⟩ := isAboutHop_of_mem_run h hmem
        simp [PathFault.IsAboutHop] at hfault
      · rintro hopCount rfl
        obtain ⟨i, -, hfault⟩ := isAboutHop_of_mem_run h hmem
        simp [PathFault.IsAboutHop] at hfault
    · refine (pairwise_run h visits).imp ?_
      rintro earlier later hnever hdelivered change rfl
      exact absurd (hnever hdelivered) (by simp [isForwarded])

end Visit

end SourceRoute
