import EarlnuxOS.Drivers.Rtl8139Receive

/-!
# The receive ring

Driver and chip agree on where the records lie, whatever arrives.  What the
driver cannot do is get past a record with an error, or tell a full ring from an
empty one; every run that spares it these two delivers everything.
-/

namespace EarlnuxOS
namespace Drivers

open Foundation
open Net

/-!
# Driver and chip in step
-/

/-- The ring holds `rest`, and `front` has been passed on. -/
structure Ring (s : RxState) (front rest : List Record) : Prop where
  appended : s.appended = front ++ rest
  passed : s.passed = front.map Record.frame
  good : forall r, r ∈ front -> r.Good
  lt : s.rxOffset.toNat < rxBufSize
  aligned : s.rxOffset.toNat % 4 = 0
  room : ringBytes Record.size rest ≤ rxBufSize
  nic : s.nicOffset =
    (s.rxOffset.toNat + ringBytes Record.size rest) % rxBufSize
  laid : Laid Record.bytes Record.size rxBufSize s.rxBuffer s.rxOffset.toNat
    rest
  bounds : s.top ≤ rxTotalSize

theorem ring_start (stack : Stack) : Ring (rxStart stack) [] [] where
  appended := rfl
  passed := rfl
  good := List.forall_mem_nil _
  lt := show 0 < rxBufSize by decide
  aligned := rfl
  room := Nat.zero_le _
  nic := rfl
  laid := trivial
  bounds := Nat.zero_le _

namespace Ring

variable {s : RxState} {front rest : List Record}

theorem unread (h : Ring s front rest) : s.unread = rest := by
  unfold RxState.unread
  rw [h.appended, h.passed, List.length_map, List.drop_left]

theorem goodFrames_front (h : Ring s front rest) :
    goodFrames s.appended = s.passed ++ goodFrames rest := by
  have hall : front.filter (fun r => decide r.Good) = front :=
    List.filter_eq_self.mpr fun r hr => decide_eq_true (h.good r hr)
  unfold goodFrames
  rw [h.appended, h.passed, List.filter_append, List.map_append, hall]

theorem passed_eq_iff (h : Ring s front rest) :
    s.passed = goodFrames s.appended <-> forall r, r ∈ rest -> ¬ r.Good := by
  rw [h.goodFrames_front, List.self_eq_append_right]
  unfold goodFrames
  rw [List.map_eq_nil_iff, List.filter_eq_nil_iff]
  simp only [decide_eq_true_eq]

/-- The chip reports an empty ring when there is nothing in it, or no room left. -/
theorem empty_iff (h : Ring s front rest) :
    s.rxOffset.toNat = s.nicOffset <->
      rest = [] ∨ ringBytes Record.size rest = rxBufSize := by
  have hlt := h.lt
  have hroom := h.room
  have hnone : ringBytes Record.size rest = 0 <-> rest = [] := by
    cases rest with
    | nil => exact iff_of_true rfl rfl
    | cons r rest =>
        have hpos := r.size_pos
        rw [ringBytes_cons]
        exact iff_of_false (by omega) (List.cons_ne_nil _ _)
  rw [← hnone, h.nic]
  unfold rxBufSize at *
  omega

theorem toNat_lt (h : Ring s front rest) : s.nicOffset < rxBufSize := by
  rw [h.nic]
  exact Nat.mod_lt _ (by decide)

/-!
# The chip's step
-/

theorem append (h : Ring s front rest) {r : Record}
    (hroom : HasRoom s (RxOp.append r)) :
    Ring (s.append r) front (rest ++ [r]) where
  appended := by
    show s.appended ++ [r] = _
    rw [h.appended, List.append_assoc]
  passed := h.passed
  good := h.good
  lt := h.lt
  aligned := h.aligned
  room := by
    unfold HasRoom at hroom
    rw [h.unread] at hroom
    rw [ringBytes_append, ringBytes_cons, ringBytes_nil]
    exact hroom
  nic := by
    show (s.nicOffset + r.size) % rxBufSize = _
    rw [h.nic, Nat.mod_add_mod, ringBytes_append, ringBytes_cons,
      ringBytes_nil, Nat.add_assoc, Nat.add_zero]
    rfl
  laid := by
    unfold HasRoom at hroom
    rw [h.unread] at hroom
    show Laid _ _ _ (writeBytes s.rxBuffer s.nicOffset r.bytes) _ _
    rw [h.nic]
    exact h.laid.snoc (by decide) (fun q _ => q.length_bytes_le_size)
      r.size_pos hroom
  bounds := by
    have hshort := r.short
    have hnic := h.toNat_lt
    have htop := h.bounds
    show max s.top (s.nicOffset + r.bytes.length) ≤ _
    rw [r.length_bytes]
    unfold rxTotalSize rxBufSize at *
    omega

/-!
# The driver's steps
-/

theorem interrupt (h : Ring s front rest) : Ring s.interrupt front rest := by
  unfold RxState.interrupt
  split
  · exact h
  · exact ⟨h.appended, h.passed, h.good, h.lt, h.aligned, h.room, h.nic,
      h.laid, h.bounds⟩

theorem header {r : Record} (h : Ring s front (r :: rest)) :
    word16 s.rxBuffer s.rxOffset.toNat = r.status ∧
      (word16 s.rxBuffer (s.rxOffset.toNat + 2)).toNat = r.data.length ∧
      readBytes s.rxBuffer (s.rxOffset.toNat + 4) (r.data.length - 4) =
        r.frame := by
  have hshort := r.short
  have hhead := h.laid.left
  rw [Nat.mod_eq_of_lt h.lt] at hhead
  unfold Record.bytes at hhead
  rw [holdsAt_append, holdsAt_append, length_bytes16, length_bytes16] at hhead
  rcases hhead with ⟨hstatus, hlen, hdata⟩
  refine ⟨?_, ?_, ?_⟩
  · unfold word16
    rw [hstatus.readBytes (length_bytes16 _), ofNat_leNum_bytes16]
  · unfold word16
    rw [hlen.readBytes (length_bytes16 _), ofNat_leNum_bytes16,
      UInt16.toNat_ofNat_of_lt' (show r.data.length < 2 ^ 16 by omega)]
  · have hsplit : r.data.take (r.data.length - 4) ++
        r.data.drop (r.data.length - 4) = r.data := List.take_append_drop _ _
    rw [← hsplit, holdsAt_append] at hdata
    exact hdata.left.readBytes (by
      rw [List.length_take]
      omega)

/-- The driver's offset moves on to where the chip put the next record. -/
theorem next {r : Record} (h : Ring s front (r :: rest)) {len : UInt16}
    (hlen : len.toNat = r.data.length) :
    (((s.rxOffset + len.toUInt32 + 4 + 3) &&& ~~~3) % 8192).toNat =
      (s.rxOffset.toNat + r.size) % rxBufSize := by
  have hlt := h.lt
  have haligned := h.aligned
  have hshort := r.short
  have hsum : (s.rxOffset + len.toUInt32 + 4 + 3).toNat =
      s.rxOffset.toNat + r.data.length + 4 + 3 := by
    rw [UInt32.toNat_add, UInt32.toNat_add, UInt32.toNat_add,
      UInt16.toNat_toUInt32, hlen]
    show (((s.rxOffset.toNat + r.data.length) % 2 ^ 32 + 4) % 2 ^ 32 + 3) %
      2 ^ 32 = _
    unfold rxBufSize at hlt
    omega
  have hdown := @toNat_alignDown (s.rxOffset + len.toUInt32 + 4 + 3) 4 2
    (by decide) rfl
  rw [hsum] at hdown
  rw [UInt32.toNat_mod]
  refine (congrArg (fun n => n % 8192) hdown).trans ?_
  unfold Record.size rxBufSize
  omega

theorem iterate_of_empty (iface : Nat) {s : RxState}
    (hrun : s.running = true) (hempty : s.rxOffset.toNat = s.nicOffset) :
    s.iterate iface = { s with running := false } := by
  unfold RxState.iterate
  rw [if_pos hrun, if_pos hempty]

theorem iterate_of_bad {r : Record} (h : Ring s front (r :: rest))
    (iface : Nat) (hrun : s.running = true)
    (hfull : ringBytes Record.size (r :: rest) ≠ rxBufSize)
    (hbad : ¬ r.Good) :
    s.iterate iface =
      { s with
        running := false
        top := max s.top (s.rxOffset.toNat + 4) } := by
  have hempty : ¬ s.rxOffset.toNat = s.nicOffset := by
    rw [h.empty_iff]
    exact fun hor => hor.elim (List.cons_ne_nil _ _) hfull
  have hflag : r.status &&& 1 = 0 := Decidable.not_not.mp hbad
  unfold RxState.iterate
  rw [if_pos hrun, if_neg hempty]
  dsimp only
  rw [h.header.1, if_pos hflag]

/-- What a pass that takes a record out leaves behind. -/
structure Advanced (s t : RxState) (front rest : List Record) : Prop where
  ring : Ring t front rest
  running : t.running = true
  appended : t.appended = s.appended
  rok : t.rok = s.rok

theorem advanced {r : Record} (h : Ring s front (r :: rest)) (iface : Nat)
    (hrun : s.running = true)
    (hfull : ringBytes Record.size (r :: rest) ≠ rxBufSize)
    (hgood : r.Good) :
    Advanced s (s.iterate iface) (front ++ [r]) rest := by
  have hempty : ¬ s.rxOffset.toNat = s.nicOffset := by
    rw [h.empty_iff]
    exact fun hor => hor.elim (List.cons_ne_nil _ _) hfull
  rcases h.header with ⟨hstatus, hlen, hframe⟩
  have hlong := r.long
  have hshort := r.short
  have hlt := h.lt
  have htop := h.bounds
  have hroom := h.room
  have hnic := h.nic
  rw [ringBytes_cons] at hroom hnic
  have hnext := h.next hlen
  have hframeLen : ((word16 s.rxBuffer
      (s.rxOffset.toNat + 2)).toUInt32 - 4).toNat = r.data.length - 4 := by
    have hle : (4 : UInt32) ≤
        (word16 s.rxBuffer (s.rxOffset.toNat + 2)).toUInt32 := by
      rw [UInt32.le_iff_toNat_le, UInt16.toNat_toUInt32, hlen]
      exact Nat.le_trans (by decide) hlong
    rw [UInt32.toNat_sub_of_le _ _ hle, UInt16.toNat_toUInt32, hlen]
    rfl
  unfold RxState.iterate
  rw [if_pos hrun, if_neg hempty]
  dsimp only
  rw [hstatus, if_neg hgood]
  refine ⟨⟨?_, ?_, ?_, ?_, ?_, ?_, ?_, ?_, ?_⟩, hrun, rfl, rfl⟩
  · dsimp only
    rw [h.appended, List.append_assoc]
    rfl
  · dsimp only
    rw [h.passed, List.map_append, hframeLen]
    refine congrArg (fun bs => front.map Record.frame ++ [bs]) ?_
    rw [← hframe]
    unfold Frame.bytes
    rw [readBytes_eq_iff]
    intro j _
    dsimp only
    rw [Nat.zero_add]
  · intro q hq
    rcases List.mem_append.mp hq with hq | hq
    · exact h.good q hq
    · rw [List.mem_singleton.mp hq]
      exact hgood
  · dsimp only
    rw [hnext]
    exact Nat.mod_lt _ (by decide)
  · have haligned := h.aligned
    dsimp only
    rw [hnext]
    unfold Record.size rxBufSize
    omega
  · omega
  · dsimp only
    rw [hnext, Nat.mod_add_mod, hnic, Nat.add_assoc]
  · dsimp only
    rw [hnext]
    exact (laid_congr (Nat.mod_mod _ _) rest).mpr h.laid.right
  · dsimp only
    rw [hframeLen]
    unfold rxTotalSize rxBufSize at *
    omega

theorem iterate (h : Ring s front rest) (iface : Nat) :
    exists front' rest', Ring (s.iterate iface) front' rest' := by
  by_cases hrun : s.running = true
  · by_cases hempty : s.rxOffset.toNat = s.nicOffset
    · rw [iterate_of_empty iface hrun hempty]
      exact ⟨front, rest, h.appended, h.passed, h.good, h.lt, h.aligned,
        h.room, h.nic, h.laid, h.bounds⟩
    · have hnot := mt h.empty_iff.mpr hempty
      cases rest with
      | nil => exact absurd (Or.inl rfl) hnot
      | cons r rest =>
          have hfull := fun hfull => hnot (Or.inr hfull)
          by_cases hgood : r.Good
          · exact ⟨_, _, (h.advanced iface hrun hfull hgood).ring⟩
          · rw [h.iterate_of_bad iface hrun hfull hgood]
            refine ⟨front, r :: rest, h.appended, h.passed, h.good, h.lt,
              h.aligned, h.room, h.nic, h.laid, ?_⟩
            have hlt := h.lt
            have htop := h.bounds
            show max s.top (s.rxOffset.toNat + 4) ≤ _
            unfold rxTotalSize rxBufSize at *
            omega
  · have hidle : s.iterate iface = s := if_neg hrun
    rw [hidle]
    exact ⟨front, rest, h⟩

end Ring

/-!
# Runs that lose nothing
-/

/-- Driver and chip in step, and nothing that a later interrupt will not deliver. -/
structure Healthy (s : RxState) (front rest : List Record) : Prop
    extends Ring s front rest where
  errorsLast : s.appended.Pairwise fun q r => r.Good -> q.Good
  notFull : ringBytes Record.size rest = rxBufSize ->
    forall r, r ∈ rest -> ¬ r.Good
  seen : s.running = false -> s.rok = false -> forall r, r ∈ rest -> ¬ r.Good

theorem healthy_start (stack : Stack) : Healthy (rxStart stack) [] [] where
  toRing := ring_start stack
  errorsLast := List.Pairwise.nil
  notFull _ := List.forall_mem_nil _
  seen _ _ := List.forall_mem_nil _

namespace Healthy

variable {s : RxState} {front rest : List Record}

theorem append (h : Healthy s front rest) {r : Record}
    (hroom : HasRoom s (RxOp.append r))
    (hdeliverable : Deliverable s (RxOp.append r)) :
    Healthy (s.append r) front (rest ++ [r]) where
  toRing := h.toRing.append hroom
  errorsLast := by
    show (s.appended ++ [r]).Pairwise _
    rw [List.pairwise_append]
    refine ⟨h.errorsLast, List.pairwise_singleton _ _, ?_⟩
    intro q hq r' hr' hgood
    rw [List.mem_singleton] at hr'
    rw [hr'] at hgood
    exact hdeliverable.left hgood q hq
  notFull := by
    have hfull := hdeliverable.right
    rw [h.unread] at hfull
    exact hfull
  seen := by
    intro hidle hrok q hq
    rcases Bool.or_eq_false_iff.mp hrok with ⟨hold, hbad⟩
    rcases List.mem_append.mp hq with hq | hq
    · exact h.seen hidle hold q hq
    · rw [List.mem_singleton.mp hq]
      exact of_decide_eq_false hbad

theorem interrupt (h : Healthy s front rest) :
    Healthy s.interrupt front rest := by
  refine ⟨h.toRing.interrupt, ?_, h.notFull, ?_⟩
  · unfold RxState.interrupt
    split
    · exact h.errorsLast
    · exact h.errorsLast
  · unfold RxState.interrupt
    split
    · exact h.seen
    · rename_i hrun
      intro hrok _
      exact h.seen (Bool.eq_false_iff.mpr hrun) hrok

theorem all_bad {r : Record} (h : Healthy s front (r :: rest))
    (hbad : ¬ r.Good) : forall q, q ∈ r :: rest -> ¬ q.Good := by
  have hpairs := h.errorsLast
  rw [h.appended, List.pairwise_append, List.pairwise_cons] at hpairs
  rw [List.forall_mem_cons]
  exact ⟨hbad, fun q hq hgood => hbad (hpairs.2.1.1 q hq hgood)⟩

/-- A pass of the loop takes a good record out, or ends the loop with none left. -/
theorem iterate (h : Healthy s front rest) (iface : Nat)
    (hrun : s.running = true) :
    (s.iterate iface).appended = s.appended ∧
      (s.iterate iface).rok = s.rok ∧
      (((s.iterate iface).running = false ∧
          Healthy (s.iterate iface) front rest) ∨
        exists r rest', rest = r :: rest' ∧
          Healthy (s.iterate iface) (front ++ [r]) rest') := by
  by_cases hempty : s.rxOffset.toNat = s.nicOffset
  · have hbad : forall r, r ∈ rest -> ¬ r.Good := by
      rcases h.toRing.empty_iff.mp hempty with rfl | hfull
      · exact List.forall_mem_nil _
      · exact h.notFull hfull
    rw [Ring.iterate_of_empty iface hrun hempty]
    exact ⟨rfl, rfl, Or.inl ⟨rfl, ⟨h.appended, h.passed, h.good, h.lt,
      h.aligned, h.room, h.nic, h.laid, h.bounds⟩, h.errorsLast, h.notFull,
      fun _ _ => hbad⟩⟩
  · have hnot := mt h.toRing.empty_iff.mpr hempty
    cases rest with
    | nil => exact absurd (Or.inl rfl) hnot
    | cons r rest =>
        have hfull := fun hfull => hnot (Or.inr hfull)
        by_cases hgood : r.Good
        · have hnext := h.toRing.advanced iface hrun hfull hgood
          refine ⟨hnext.appended, hnext.rok, Or.inr ⟨r, rest, rfl, hnext.ring,
            ?_, ?_, ?_⟩⟩
          · rw [hnext.appended]
            exact h.errorsLast
          · intro hturn
            have hroom := h.room
            have hpos := r.size_pos
            rw [ringBytes_cons] at hroom
            omega
          · intro hidle
            rw [hnext.running] at hidle
            cases hidle
        · have hring := h.toRing.iterate_of_bad iface hrun hfull hgood
          have hlt := h.lt
          have htop := h.bounds
          rw [hring]
          refine ⟨rfl, rfl, Or.inl ⟨rfl, ⟨h.appended, h.passed, h.good, h.lt,
            h.aligned, h.room, h.nic, h.laid, ?_⟩, h.errorsLast, h.notFull,
            fun _ _ => h.all_bad hgood⟩⟩
          show max s.top (s.rxOffset.toNat + 4) ≤ _
          unfold rxTotalSize rxBufSize at *
          omega

theorem finish (h : Healthy s front rest) (iface : Nat) :
    exists n front' rest',
      Healthy ((RxState.iterate iface)^[n] s) front' rest' ∧
        ((RxState.iterate iface)^[n] s).running = false ∧
        ((RxState.iterate iface)^[n] s).appended = s.appended ∧
        ((RxState.iterate iface)^[n] s).rok = s.rok := by
  induction rest generalizing s front with
  | nil =>
      by_cases hrun : s.running = true
      · rcases h.iterate iface hrun with
          ⟨happended, hrok, ⟨hidle, hnext⟩ | ⟨r, rest', heq, _⟩⟩
        · exact ⟨1, front, [], hnext, hidle, happended, hrok⟩
        · cases heq
      · exact ⟨0, front, [], h, Bool.eq_false_iff.mpr hrun, rfl, rfl⟩
  | cons r rest ih =>
      by_cases hrun : s.running = true
      · rcases h.iterate iface hrun with
          ⟨happended, hrok, ⟨hidle, hnext⟩ | ⟨q, rest', heq, hnext⟩⟩
        · exact ⟨1, front, r :: rest, hnext, hidle, happended, hrok⟩
        · cases heq
          rcases ih hnext with ⟨n, front', rest', hn, hend, hsame, hbit⟩
          refine ⟨n + 1, front', rest', hn, hend, ?_, ?_⟩
          · exact hsame.trans happended
          · exact hbit.trans hrok
      · exact ⟨0, front, r :: rest, h, Bool.eq_false_iff.mpr hrun, rfl, rfl⟩

theorem delivers (h : Healthy s front rest) (iface : Nat) :
    Delivers iface s := by
  rcases h.finish iface with ⟨n, front', rest', hn, hidle, hsame, _⟩
  rcases hn.interrupt.finish iface with ⟨m, front'', rest'', hm, hend, hall, hrok⟩
  refine ⟨n, m, hidle, hend, ?_⟩
  have hacked : ((RxState.iterate iface)^[n] s).interrupt.rok = false := by
    unfold RxState.interrupt
    rw [if_neg (Bool.eq_false_iff.mp hidle)]
  have hkept : ((RxState.iterate iface)^[n] s).interrupt.appended =
      ((RxState.iterate iface)^[n] s).appended := by
    unfold RxState.interrupt
    split <;> rfl
  have hnone := hm.seen hend (hrok.trans hacked)
  have hpassed := hm.toRing.passed_eq_iff.mpr hnone
  rw [hall, hkept, hsame] at hpassed
  exact hpassed

theorem sound (h : Healthy s front rest) (iface : Nat) :
    RingSound iface s where
  bounds := h.bounds
  inOrder := by
    rw [h.toRing.goodFrames_front]
    exact List.prefix_append _ _
  delivers := h.delivers iface
  drained := by
    intro hlen
    rw [h.appended, h.passed, List.length_map, List.length_append] at hlen
    rw [h.toRing.empty_iff]
    exact Or.inl (List.length_eq_zero_iff.mp (by omega))

end Healthy

/-!
# Runs that lose a frame
-/

/-- What the loop and the way into it preserve holds whenever they end. -/
theorem served_invariant {P : RxState -> Prop} (iface : Nat)
    (hiterate : forall s, P s -> P (s.iterate iface))
    (hinterrupt : forall s, P s -> P s.interrupt) {s : RxState} (hs : P s)
    (n m : Nat) : P (s.served iface n m) := by
  have hfirst : P ((RxState.iterate iface)^[n] s) :=
    Function.Iterate.rec P hs hiterate n
  exact Function.Iterate.rec P (hinterrupt _ hfirst) hiterate m

theorem appended_iterate (iface : Nat) (s : RxState) :
    (s.iterate iface).appended = s.appended := by
  unfold RxState.iterate
  split
  · split
    · rfl
    · dsimp only
      split <;> rfl
  · rfl

theorem appended_interrupt (s : RxState) :
    s.interrupt.appended = s.appended := by
  unfold RxState.interrupt
  split <;> rfl

theorem ring_served {s : RxState} {front rest : List Record}
    (h : Ring s front rest) (iface n m : Nat) :
    exists front' rest', Ring (s.served iface n m) front' rest' ∧
      (s.served iface n m).appended = s.appended := by
  have hkept := served_invariant iface
    (P := fun t => (exists front' rest', Ring t front' rest') ∧
      t.appended = s.appended)
    (fun t ht => ⟨by
      rcases ht.1 with ⟨front', rest', hring⟩
      exact hring.iterate iface, (appended_iterate iface t).trans ht.2⟩)
    (fun t ht => ⟨by
      rcases ht.1 with ⟨front', rest', hring⟩
      exact ⟨front', rest', hring.interrupt⟩, (appended_interrupt t).trans ht.2⟩)
    ⟨⟨front, rest, h⟩, rfl⟩ n m
  rcases hkept with ⟨⟨front', rest', hring⟩, hsame⟩
  exact ⟨front', rest', hring, hsame⟩

theorem not_delivers_of_error {s : RxState} {front rest : List Record}
    (h : Ring s front rest) {xs : List Record} {q r : Record}
    (happended : s.appended = xs ++ [r]) (hq : q ∈ xs) (hbad : ¬ q.Good)
    (hgood : r.Good) (iface : Nat) : ¬ Delivers iface s := by
  rintro ⟨n, m, _, _, hpassed⟩
  rcases ring_served h iface n m with ⟨front', rest', hring, hsame⟩
  rw [← hsame, hring.passed_eq_iff] at hpassed
  have hsplit : front' ++ rest' = xs ++ [r] := by
    rw [← hring.appended, hsame, happended]
  rcases List.eq_nil_or_concat rest' with hnil | ⟨ys, y, hlast⟩
  · have hmem : q ∈ front' := by
      rw [hnil, List.append_nil] at hsplit
      rw [hsplit]
      exact List.mem_append_left _ hq
    exact hbad (hring.good q hmem)
  · rw [List.concat_eq_append] at hlast
    rw [hlast, ← List.append_assoc] at hsplit
    have hsame : y = r := List.singleton_inj.mp (List.append_inj' hsplit rfl).2
    apply hpassed y
    · rw [hlast]
      exact List.mem_append_right _ List.mem_cons_self
    · rw [hsame]
      exact hgood

theorem passed_served_of_full {s : RxState}
    (hfull : s.rxOffset.toNat = s.nicOffset) (iface n m : Nat) :
    (s.served iface n m).passed = s.passed := by
  have hkept := served_invariant iface
    (P := fun t => t.rxOffset.toNat = t.nicOffset ∧ t.passed = s.passed)
    (fun t ht => by
      unfold RxState.iterate
      split
      · rw [if_pos ht.1]
        exact ht
      · exact ht)
    (fun t ht => by
      unfold RxState.interrupt
      split
      · exact ht
      · exact ht)
    ⟨hfull, rfl⟩ n m
  exact hkept.2

theorem not_sound_of_not_deliverable {s : RxState} {front rest : List Record}
    (h : Ring s front rest) {r : Record} (hroom : HasRoom s (RxOp.append r))
    (hnot : ¬ Deliverable s (RxOp.append r)) (iface : Nat) :
    ¬ RingSound iface (s.append r) := by
  intro hsound
  have hring := h.append hroom
  apply hnot
  constructor
  · intro hgood q hq
    by_contra hbad
    exact not_delivers_of_error hring rfl hq hbad hgood iface hsound.delivers
  · intro hfull
    rw [h.unread] at hfull ⊢
    have hempty := hring.empty_iff.mpr (Or.inr hfull)
    rcases hsound.delivers with ⟨n, m, _, _, hpassed⟩
    rw [passed_served_of_full hempty] at hpassed
    exact hring.passed_eq_iff.mp hpassed

/-!
# All runs
-/

/-- The receiver loses nothing exactly in the runs whose records can be delivered. -/
theorem ringSound_iff (iface : Nat) (stack : Stack) {ops : List RxOp}
    (hroom : Meets (RxState.exec iface) HasRoom (rxStart stack) ops) :
    Meets (RxState.exec iface) Deliverable (rxStart stack) ops <->
      forall first, first <+: ops ->
        RingSound iface (run (RxState.exec iface) (rxStart stack) first) := by
  have hgood : forall s, (exists front rest, Healthy s front rest) ->
      ¬ ¬ RingSound iface s := by
    rintro s ⟨front, rest, h⟩ hbad
    exact hbad (h.sound iface)
  have hstep : forall s o, (exists front rest, Healthy s front rest) ->
      HasRoom s o ->
      (Deliverable s o ∧ exists front rest,
        Healthy (s.exec iface o) front rest) ∨
        (¬ Deliverable s o ∧ ¬ RingSound iface (s.exec iface o)) := by
    rintro s o ⟨front, rest, h⟩ hvalid
    cases o with
    | append r =>
        by_cases hdeliverable : Deliverable s (RxOp.append r)
        · exact Or.inl ⟨hdeliverable, front, rest ++ [r],
            h.append hvalid hdeliverable⟩
        · exact Or.inr ⟨hdeliverable, not_sound_of_not_deliverable h.toRing
            hvalid hdeliverable iface⟩
    | interrupt => exact Or.inl ⟨trivial, front, rest, h.interrupt⟩
    | iterate =>
        left
        refine ⟨trivial, ?_⟩
        by_cases hrun : s.running = true
        · rcases (h.iterate iface hrun).2.2 with ⟨_, hnext⟩ | ⟨r, rest', _, hnext⟩
          · exact ⟨front, rest, hnext⟩
          · exact ⟨front ++ [r], rest', hnext⟩
        · have hidle : s.exec iface RxOp.iterate = s := if_neg hrun
          rw [hidle]
          exact ⟨front, rest, h⟩
  rw [Meets.iff_never hgood hstep ⟨[], [], healthy_start stack⟩ hroom]
  exact forall_congr' fun first => imp_congr_right fun _ => Classical.not_not

def shortRecord (status : UInt16) : Record :=
  ⟨status, [1, 2, 3, 4, 5, 6, 7, 8], by decide, by decide⟩

def twoShort : List RxOp :=
  [RxOp.append (shortRecord 1), RxOp.append (shortRecord 1), RxOp.interrupt,
    RxOp.iterate, RxOp.iterate]

theorem ringSound_iff_twoShort :
    Meets (RxState.exec 0) Deliverable (rxStart (bootStack (upIface 0)))
        twoShort <->
      forall first, first <+: twoShort ->
        RingSound 0
          (run (RxState.exec 0) (rxStart (bootStack (upIface 0))) first) :=
  ringSound_iff 0 (bootStack (upIface 0))
    ⟨show 12 ≤ 8192 by decide, show 24 ≤ 8192 by decide, trivial, trivial,
      trivial, trivial⟩

/-- A packet with an error keeps the good one behind it from being delivered. -/
theorem error_blocks_ring :
    ¬ forall (iface : Nat) (stack : Stack) (ops : List RxOp),
      Meets (RxState.exec iface) HasRoom (rxStart stack) ops ->
      forall first, first <+: ops ->
        RingSound iface (run (RxState.exec iface) (rxStart stack) first) := by
  intro hclaim
  have hroom : HasRoom (rxStart (bootStack (upIface 0)))
      (RxOp.append (shortRecord 0)) := show 12 ≤ 8192 by decide
  have hroom' : HasRoom ((rxStart (bootStack (upIface 0))).append
      (shortRecord 0)) (RxOp.append (shortRecord 1)) :=
    show 24 ≤ 8192 by decide
  have hring := (ring_start (bootStack (upIface 0))).append hroom
  refine not_sound_of_not_deliverable hring hroom' ?_ 0
    (hclaim 0 _ [RxOp.append (shortRecord 0), RxOp.append (shortRecord 1)]
      ⟨hroom, hroom', trivial⟩ _ (List.prefix_refl _))
  intro hdeliverable
  have hfirst := hdeliverable.left (show (shortRecord 1).Good by decide)
    (shortRecord 0) (List.mem_append_right _ List.mem_cons_self)
  exact absurd hfirst (by decide)

end Drivers
end EarlnuxOS
