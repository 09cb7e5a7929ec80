import SourceRoute.Proofs.CurrentLaws
import SourceRoute.Router

/-!
# Forwarding refines the owned path

A node works on bytes.  `judge` is what it should do, told of the owned path that the bytes decode
to.  The bytes change in the first byte only, and only if the packet is forwarded; they then decode
to the advanced path.
-/

namespace SourceRoute

/-! ## Advancing in place -/

namespace PathView

variable {v : PathView}

/-- A sound view at a valid position decodes, whatever follows it. -/
theorem Sound.decode_append (h : v.Sound) (hfault : v.header.fault? = none) (rest : Bytes) :
    Path.decode (v.bytes ++ rest) = .ok (v.toPath, rest) :=
  Path.decode_eq_ok_iff.mpr ⟨v, ofBytes_eq_ok_iff.mpr ⟨rfl, h, hfault⟩, rfl⟩

/-- Advancing in place is advancing the owned path, and the new position is valid. -/
theorem Sound.advance_of_lt (h : v.Sound) (hfault : v.header.fault? = none)
    (hnext : v.toPath.currentHop.toNat + 1 < v.toPath.hopCount) :
    ∃ next, v.header.advance = .ok next ∧ v.toPath.advance = .ok (v.moveTo next).toPath ∧
      (v.moveTo next).toPath.currentInfo = next.currentInfo ∧
      (v.moveTo next).Sound ∧ (v.moveTo next).header.fault? = none := by
  have hp := h.wellFormed_toPath hfault
  obtain ⟨s, k, hlocate⟩ := Runs.exists_locate hnext
  -- the path at the next hop is well formed, so its position fits the bits of the header
  have hplaced := Path.wellFormed_placedAt hp.sizes hnext
  have hadvance := Header.advance_of_locate (h := v.toPath.header) hp.describes hlocate
  rw [h.header_toPath] at hadvance
  refine ⟨_, hadvance, ?_⟩
  have hmoved : v.toPath.placedAt (v.toPath.currentHop.toNat + 1) =
      ⟨UInt8.ofNat s, UInt8.ofNat (v.toPath.currentHop.toNat + 1), v.toPath.segments⟩ := by
    rw [Path.placedAt, Path.locate?, hlocate]
    rfl
  have hfits := hplaced.fits
  rw [Path.header, hmoved] at hfits
  -- only the position of the header that is moved to is written
  have hview := h.toPath_moveTo { v.header with
    currentInfo := UInt8.ofNat s
    currentHop := UInt8.ofNat (v.header.currentHop.toNat + 1) }
    { currentInfo_lt := hfits.currentInfo_lt
      currentHop_lt := hfits.currentHop_lt
      first_lt := by
        rw [← h.header_toPath]
        exact hfits.first_lt
      second_lt := by
        rw [← h.header_toPath]
        exact hfits.second_lt
      third_lt := by
        rw [← h.header_toPath]
        exact hfits.third_lt }
  have hsound := (h.sameRecords_moveTo { v.header with
    currentInfo := UInt8.ofNat s
    currentHop := UInt8.ofNat (v.header.currentHop.toNat + 1) }).sound h
  have heq := hview.trans hmoved.symm
  refine ⟨?_, congrArg Path.currentInfo hview, hsound, ?_⟩
  · rw [hp.advance_of_lt hnext, heq]
  · rw [← hsound.header_toPath, heq]
    exact hplaced.fault?_header

end PathView

/-! ## The lifetime of a hop -/

namespace HopField

/-- The last point at which the hop is valid, counted in half seconds from the epoch.  A hop lives
for at least 337.5 seconds. -/
def expiryHalfSeconds (h : HopField) (timestamp : UInt32) : Nat :=
  2 * timestamp.toNat + 675 * (1 + h.expTime.toNat)

theorem nanoseconds_expiry (h : HopField) (timestamp : UInt32) :
    (h.expiry timestamp).nanoseconds = h.expiryHalfSeconds timestamp * 500000000 := by
  simp only [expiry, Instant.later, Instant.ofEpoch, Instant.perSecond, lifetime, lifetimeUnit,
    expiryHalfSeconds]
  omega

theorem seconds_expiry (h : HopField) (timestamp : UInt32) :
    (h.expiry timestamp).seconds.toNat = h.expiryHalfSeconds timestamp / 2 := by
  rw [Instant.seconds, nanoseconds_expiry, Instant.perSecond]
  omega

theorem expiry_lt_iff (h : HopField) (timestamp : UInt32) (now : Instant) :
    h.expiry timestamp < now ↔
      (h.expiryHalfSeconds timestamp : Int) * 500000000 < now.nanoseconds := by
  rw [← nanoseconds_expiry]
  exact Iff.rfl

end HopField

/-! ## Judging owned paths -/

namespace Router

/-- What a node does with an owned path, given its current info and hop field. -/
def judge (r : Router) (p : Path) (info : InfoField) (hop : HopField) (seed : Option PeeringSeed)
    (now : Instant) : Except PathFault Outcome :=
  let expiry := hop.expiryHalfSeconds info.timestamp
  if r.checkExpiry ∧ (expiry : Int) * 500000000 < now.nanoseconds then
    .error (.expired p.currentHop.toNat (expiry / 2))
  else if p.records.verify r.key seed = false then .error (.wrongMac p.currentHop.toNat)
  else
    match p.advance with
    | .ok next => .ok (.forwarded (next.currentInfo ≠ p.currentInfo))
    | .error (.exhausted _) => .ok .delivered
    | .error fault => .error fault

section

variable (r : Router) {v : PathView} {current : CurrentHop} (seed : Option PeeringSeed)
  (now : Instant)

theorem judge_eq_forwarded {p next : Path} {info : InfoField} {hop : HopField}
    (halive : r.checkExpiry = true → ¬ hop.expiry info.timestamp < now)
    (hverify : p.records.verify r.key seed = true) (hadvance : p.advance = .ok next) :
    r.judge p info hop seed now = .ok (.forwarded (next.currentInfo ≠ p.currentInfo)) := by
  unfold judge
  rw [if_neg fun hexpired => halive hexpired.1 ((hop.expiry_lt_iff _ _).mpr hexpired.2), hverify,
    hadvance]
  rfl

theorem judge_eq_delivered {p : Path} {info : InfoField} {hop : HopField} {n : Nat}
    (halive : r.checkExpiry = true → ¬ hop.expiry info.timestamp < now)
    (hverify : p.records.verify r.key seed = true) (hadvance : p.advance = .error (.exhausted n)) :
    r.judge p info hop seed now = .ok .delivered := by
  unfold judge
  rw [if_neg fun hexpired => halive hexpired.1 ((hop.expiry_lt_iff _ _).mpr hexpired.2), hverify,
    hadvance]
  rfl

/-- The checks of the current hop, in their order. -/
theorem acceptHop_eq (hcurrent : CurrentHop.locate v.records = .ok current) :
    r.acceptHop v seed now =
      if r.checkExpiry ∧ current.hop.expiry current.info.timestamp < now then
        .error (.expired current.index (current.hop.expiry current.info.timestamp).seconds.toNat)
      else if current.verify r.key seed = false then .error (.wrongMac current.index)
      else .ok current := by
  simp only [acceptHop, hcurrent, checkLifetime, CurrentHop.authenticate, bind, Except.bind]
  by_cases hexpired : r.checkExpiry ∧ current.hop.expiry current.info.timestamp < now
  · simp only [if_pos hexpired]
  · simp only [if_neg hexpired]
    cases current.verify r.key seed <;> rfl

/-- What can happen to a sound view: it is refused or delivered as it is, or it is moved to the next
hop. -/
theorem handleView_cases (hsound : v.Sound) (hfault : v.header.fault? = none)
    (hcurrent : CurrentHop.locate v.records = .ok current)
    (hindex : current.index = v.toPath.currentHop.toNat)
    (hsegment : current.segment = v.toPath.currentInfo.toNat) :
    (∃ fault, r.judge v.toPath current.info current.hop seed now = .error fault ∧
      r.handleView v seed now = (.error fault, v)) ∨
    (r.judge v.toPath current.info current.hop seed now = .ok .delivered ∧
      v.toPath.advance = .error (.exhausted v.toPath.hopCount) ∧
      r.handleView v seed now = (.ok .delivered, v)) ∨
    ∃ next, v.toPath.advance = .ok (v.moveTo next).toPath ∧
      r.judge v.toPath current.info current.hop seed now =
        .ok (.forwarded ((v.moveTo next).toPath.currentInfo ≠ v.toPath.currentInfo)) ∧
      r.handleView v seed now =
        (.ok (.forwarded ((v.moveTo next).toPath.currentInfo ≠ v.toPath.currentInfo)),
          v.moveTo next) ∧
      (v.moveTo next).Sound ∧ (v.moveTo next).header.fault? = none := by
  have hp := hsound.wellFormed_toPath hfault
  have hverify : v.toPath.records.verify r.key seed = current.verify r.key seed := by
    rw [hsound.records_toPath]
    exact RecordSource.verify_of_locate hcurrent r.key seed
  have haccept := r.acceptHop_eq seed now hcurrent
  simp only [hindex, HopField.expiry_lt_iff, HopField.seconds_expiry] at haccept
  rw [judge, handleView, hverify]
  by_cases hexpired : r.checkExpiry ∧
      (current.hop.expiryHalfSeconds current.info.timestamp : Int) * 500000000 < now.nanoseconds
  -- refused for its age, before the code is looked at
  · rw [if_pos hexpired] at haccept
    exact .inl ⟨_, if_pos hexpired, by rw [haccept]⟩
  rw [if_neg hexpired] at haccept
  simp only [if_neg hexpired]
  by_cases hwrong : current.verify r.key seed = false
  -- refused for its code
  · rw [if_pos hwrong] at haccept
    exact .inl ⟨_, if_pos hwrong, by rw [haccept]⟩
  rw [if_neg hwrong] at haccept
  simp only [if_neg hwrong, haccept]
  have hlast : v.header.isLast = true ↔ v.toPath.hopCount ≤ v.toPath.currentHop.toNat + 1 := by
    rw [← hsound.header_toPath]
    exact Header.isLast_iff hp.describes
  -- the hop is accepted, and forwarded unless it is the last one
  rcases Nat.lt_or_ge (v.toPath.currentHop.toNat + 1) v.toPath.hopCount with hnext | hend
  · have hgoing : v.header.isLast = false := by
      rw [← Bool.not_eq_true, hlast]
      omega
    obtain ⟨next, hadvance, howned, hinfo, hsound', hfault'⟩ := hsound.advance_of_lt hfault hnext
    have hchange : (next.currentInfo.toNat ≠ current.segment) =
        ((v.moveTo next).toPath.currentInfo ≠ v.toPath.currentInfo) := by
      rw [hinfo, hsegment, Ne, Ne, UInt8.toNat_inj]
    refine .inr (.inr ⟨next, howned, ?_, ?_, hsound', hfault'⟩)
    · rw [howned]
    · simp only [hgoing, Bool.false_eq_true, if_false, PathView.advance, hadvance, hchange]
  · have hexhausted := hp.advance_of_last hend
    refine .inr (.inl ⟨?_, hexhausted, ?_⟩)
    · rw [hexhausted]
    · rw [if_pos (hlast.mpr hend)]

/-- Every sound view at a valid position has a current hop. -/
theorem exists_current (hsound : v.Sound) (hfault : v.header.fault? = none) :
    ∃ current, CurrentHop.locate v.records = .ok current ∧
      current.index = v.toPath.currentHop.toNat ∧ current.segment = v.toPath.currentInfo.toNat ∧
      v.toPath.info? v.toPath.currentInfo.toNat = some current.info ∧
      v.toPath.currentHop? = some current.hop := by
  have hcurrent := (hsound.wellFormed_toPath hfault).exists_current
  rwa [hsound.records_toPath] at hcurrent

theorem handle_of_ofBytes {b rest : Bytes} (hok : PathView.ofBytes b = .ok (v, rest)) :
    r.handle b seed now =
      ((r.handleView v seed now).1, (r.handleView v seed now).2.bytes ++ rest) := by
  rw [handle, hok]

theorem handle_of_malformed {b : Bytes} {cause : Malformed}
    (herror : PathView.ofBytes b = .error cause) :
    r.handle b seed now = (.error (.malformed cause), b) := by
  rw [handle, herror]

/-- A view whose first byte was rewritten, with what follows it, agrees with the old bytes behind
the first one. -/
theorem getElem?_moveTo_append (v : PathView) (next : Header) (rest : Bytes) {i : Nat}
    (hi : 0 < i) : ((v.moveTo next).bytes ++ rest)[i]? = (v.bytes ++ rest)[i]? := by
  have hlength := PathView.length_moveTo v next
  -- the view has as many bytes as before, so what follows it stays in place
  rcases Nat.lt_or_ge i v.bytes.length with hlt | hge
  · rw [List.getElem?_append_left (by omega), List.getElem?_append_left hlt,
      PathView.getElem?_moveTo v next hi]
  · rw [List.getElem?_append_right (by omega), List.getElem?_append_right hge, hlength]

end

/-- Handling a packet refines judging the owned path that it decodes to.  Bytes that do not decode
are refused for the reason that decoding gives.  Otherwise the answer is the judgement; a forwarded
packet decodes to the advanced path, with the same bytes behind it, and differs from the old one in
its first byte only; any other packet stays as it was. -/
theorem handle_refines_judge (r : Router) (b : Bytes) (seed : Option PeeringSeed) (now : Instant) :
    match Path.decode b with
    | .error cause => r.handle b seed now = (.error (.malformed cause), b)
    | .ok (p, rest) =>
      ∃ info hop, p.info? p.currentInfo.toNat = some info ∧ p.currentHop? = some hop ∧
        ((∃ next, p.advance = .ok next) ∨ p.advance = .error (.exhausted p.hopCount)) ∧
        (r.handle b seed now).1 = r.judge p info hop seed now ∧
        (∀ change, (r.handle b seed now).1 = .ok (.forwarded change) →
          ∃ next, p.advance = .ok next ∧
            Path.decode (r.handle b seed now).2 = .ok (next, rest) ∧
            (r.handle b seed now).2.length = b.length ∧
            ∀ i, 0 < i → (r.handle b seed now).2[i]? = b[i]?) ∧
        ((∀ change, (r.handle b seed now).1 ≠ .ok (.forwarded change)) →
          (r.handle b seed now).2 = b) := by
  split
  next cause hdecode => exact r.handle_of_malformed seed now (Path.decode_eq_error_iff.mp hdecode)
  next p rest hdecode =>
    obtain ⟨v, hok, rfl⟩ := Path.decode_eq_ok_iff.mp hdecode
    obtain ⟨rfl, hsound, hfault⟩ := PathView.ofBytes_eq_ok_iff.mp hok
    have hp := hsound.wellFormed_toPath hfault
    obtain ⟨current, hcurrent, hindex, hsegment, hinfo, hhop⟩ := exists_current hsound hfault
    have hadvance : (∃ next, v.toPath.advance = .ok next) ∨
        v.toPath.advance = .error (.exhausted v.toPath.hopCount) := by
      rcases Nat.lt_or_ge (v.toPath.currentHop.toNat + 1) v.toPath.hopCount with hnext | hend
      · exact .inl ⟨_, hp.advance_of_lt hnext⟩
      · exact .inr (hp.advance_of_last hend)
    refine ⟨current.info, current.hop, hinfo, hhop, hadvance, ?_⟩
    rw [r.handle_of_ofBytes seed now hok]
    -- refused, delivered or moved to the next hop
    rcases r.handleView_cases seed now hsound hfault hcurrent hindex hsegment with
      ⟨fault, hjudge, hview⟩ | ⟨hjudge, -, hview⟩ | ⟨next, hnext, hjudge, hview, hsound', hfault'⟩
    · rw [hview, hjudge]
      exact ⟨rfl, fun change hforwarded => by simp at hforwarded, fun _ => rfl⟩
    · rw [hview, hjudge]
      exact ⟨rfl, fun change hforwarded => by simp at hforwarded, fun _ => rfl⟩
    · rw [hview, hjudge]
      refine ⟨rfl, ?_, fun hnot => absurd rfl (hnot _)⟩
      intro change _
      refine ⟨_, hnext, hsound'.decode_append hfault' rest, ?_, ?_⟩
      · rw [List.length_append, List.length_append, PathView.length_moveTo]
      · intro i hi
        exact getElem?_moveTo_append v next rest hi

end Router

end SourceRoute
