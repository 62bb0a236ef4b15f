import CadsTunnel.CertSweep

/-! The admission of a hostname to a certificate, as a machine of four states that lies in
five columns of its row. The sweep offers on the word of a list that it has read before;
what becomes of a hostname in between decides whether the offer goes to one who waits. -/
namespace CadsTunnel.CertAdmission
open OrderedMap Sql TunnelStore CertStore CertSweep
open Std (ExtTreeMap)

/- The four states of a row. -/
inductive Placed (r : TunnelRow) : Prop where
  | rot (status : r.status = .rot) (ca : r.assignedCa = none) (claim : r.claimState = .none)
  | waits (status : r.status = .gelb) (ca : r.assignedCa = none) (claim : r.claimState = .none)
  | offered (status : r.status = .gelb) (ca : r.assignedCa.isSome) (claim : r.claimState = .offered) (deadline : r.claimDeadline.isSome)
  | gruen (status : r.status = .gruen) (ca : r.assignedCa.isSome) (claim : r.claimState = .none)

/- What a step may make of a row. -/
structure Forward (r t : TunnelRow) : Prop where
  status : t.status = r.status ∨ r.status = .rot ∧ t.status = .gelb ∨ r.status = .gelb ∧ t.status = .gruen
  offer : r.claimState ≠ .offered → t.claimState = .offered → waiting r
  ca : r.status = .gruen → t.assignedCa = r.assignedCa

structure Sound (s m : Tables) : Prop where
  placed : ∀ (id : String) (t : TunnelRow), m.tunnels[id]? = some t → Placed t
  fresh : ∀ (id : String) (t : TunnelRow), s.tunnels[id]? = none → m.tunnels[id]? = some t → t.status = .rot ∧ t.claimState ≠ .offered
  forward : ∀ (id : String) (r t : TunnelRow), s.tunnels[id]? = some r → m.tunnels[id]? = some t → Forward r t

def unready (hostname : String) (_ : String) (r : TunnelRow) : Bool :=
  r.hostname = some hostname && r.assignedCa.isNone && (r.status = .rot || r.certClaimOptOut)

/- The sweep offers to a hostname whose row is red, or opted out, by the time. -/
def overtaken (s : State) (call : Call) : Bool :=
  match call.act, s.sweep with
  | .sweep, .picked _ hostname _ _ => !call.faults.headD false && hasRow (unready hostname) s.tables.tunnels
  | _, _ => false

section Rows
variable {r t : TunnelRow}

theorem waitingIff (r : TunnelRow) : waiting r ↔ r.status = .gelb ∧ r.claimState = .none ∧ r.assignedCa = none ∧ r.certClaimOptOut = false := by
  simp [waiting, and_assoc]

theorem placedOffers (placed : Placed r) (offers : r.claimState = .offered) : r.status = .gelb ∧ r.assignedCa.isSome := by
  cases placed with
  | offered yellow assigned => exact ⟨yellow,assigned⟩
  | rot _ _ closed => rw [offers] at closed; contradiction
  | waits _ _ closed => rw [offers] at closed; contradiction
  | gruen _ _ closed => rw [offers] at closed; contradiction

theorem placedRed (placed : Placed r) (red : r.status = .rot) : r.assignedCa = none ∧ r.claimState = .none := by
  cases placed with
  | rot _ unassigned closed => exact ⟨unassigned,closed⟩
  | waits other => rw [red] at other; contradiction
  | offered other => rw [red] at other; contradiction
  | gruen other => rw [red] at other; contradiction

theorem placedGreen (placed : Placed r) (green : r.status = .gruen) : r.assignedCa.isSome ∧ r.claimState = .none := by
  cases placed with
  | gruen _ assigned closed => exact ⟨assigned,closed⟩
  | rot other => rw [green] at other; contradiction
  | waits other => rw [green] at other; contradiction
  | offered other => rw [green] at other; contradiction

theorem placedUnassigned (placed : Placed r) (unassigned : r.assignedCa = none) : (r.status = .rot ∨ r.status = .gelb) ∧ r.claimState = .none := by
  cases placed with
  | rot red _ closed => exact ⟨.inl red,closed⟩
  | waits yellow _ closed => exact ⟨.inr yellow,closed⟩
  | offered _ assigned => rw [unassigned] at assigned; contradiction
  | gruen _ assigned => rw [unassigned] at assigned; contradiction

theorem placedOpen (placed : Placed r) : r.claimState ≠ .lapsed := by
  cases placed with
  | rot _ _ claim => rw [claim]; decide
  | waits _ _ claim => rw [claim]; decide
  | offered _ _ claim => rw [claim]; decide
  | gruen _ _ claim => rw [claim]; decide

/- What the calls and the sweep do to a row. -/
inductive Shift (r t : TunnelRow) : Prop where
  | kept (status : t.status = r.status) (ca : t.assignedCa = r.assignedCa) (claim : t.claimState = r.claimState)
      (deadline : r.claimState = .offered → t.claimDeadline = r.claimDeadline)
  | queued (red : r.status = .rot) (status : t.status = .gelb) (ca : t.assignedCa = r.assignedCa) (claim : t.claimState = r.claimState)
  | offered (waits : waiting r) (status : t.status = r.status) (ca : t.assignedCa.isSome) (claim : t.claimState = .offered) (deadline : t.claimDeadline.isSome)
  | lapsed (offers : r.claimState = .offered) (status : t.status = r.status) (ca : t.assignedCa = none) (claim : t.claimState = .none)
  | completed (offers : r.claimState = .offered) (status : t.status = .gruen) (ca : t.assignedCa = r.assignedCa) (claim : t.claimState = .none)

theorem shiftSame (r : TunnelRow) : Shift r r := .kept rfl rfl rfl (fun _ => rfl)

theorem shiftPlaced (placed : Placed r) (shift : Shift r t) : Placed t := by
  cases shift with
  | kept status ca claim deadline =>
    cases placed with
    | rot red unassigned closed => exact .rot (status.trans red) (ca.trans unassigned) (claim.trans closed)
    | waits yellow unassigned closed => exact .waits (status.trans yellow) (ca.trans unassigned) (claim.trans closed)
    | offered yellow assigned offers limit => exact .offered (status.trans yellow) (ca ▸ assigned) (claim.trans offers) (deadline offers ▸ limit)
    | gruen green assigned closed => exact .gruen (status.trans green) (ca ▸ assigned) (claim.trans closed)
  | queued red status ca claim =>
    obtain ⟨unassigned,closed⟩ := placedRed placed red
    exact .waits status (ca.trans unassigned) (claim.trans closed)
  | offered waits status ca claim deadline => exact .offered (status.trans ((waitingIff r).mp waits).1) ca claim deadline
  | lapsed offers status ca claim => exact .waits (status.trans (placedOffers placed offers).1) ca claim
  | completed offers status ca claim => exact .gruen status (ca ▸ (placedOffers placed offers).2) claim

theorem shiftForward (placed : Placed r) (shift : Shift r t) : Forward r t := by
  cases shift with
  | kept status ca claim => exact ⟨.inl status,fun closed offers => absurd (claim ▸ offers) closed,fun _ => ca⟩
  | queued red status ca claim => exact ⟨.inr (.inl ⟨red,status⟩),fun closed offers => absurd (claim ▸ offers) closed,fun _ => ca⟩
  | offered waits status =>
    refine ⟨.inl status,fun _ _ => waits,fun green => ?_⟩
    rw [((waitingIff r).mp waits).1] at green
    contradiction
  | lapsed offers status ca claim =>
    refine ⟨.inl status,fun closed => absurd offers closed,fun green => ?_⟩
    rw [(placedOffers placed offers).1] at green
    contradiction
  | completed offers status ca claim =>
    exact ⟨.inr (.inr ⟨(placedOffers placed offers).1,status⟩),fun closed => absurd offers closed,fun _ => ca⟩

end Rows

section Steps
variable {s m : Tables}

/- A step that writes to rows one by one. -/
theorem shiftedSound (placed : ∀ (id : String) (r : TunnelRow), s.tunnels[id]? = some r → Placed r)
    (shifted : ∀ (id : String) (t : TunnelRow), m.tunnels[id]? = some t →
      s.tunnels[id]? = none ∧ Fresh t ∨ ∃ r, s.tunnels[id]? = some r ∧ Shift r t) : Sound s m := by
  refine ⟨?_,?_,?_⟩
  · intro id t here
    obtain ⟨_,_,_,_,_,_,rfl⟩ | ⟨r,found,shift⟩ := shifted id t here
    · exact .rot rfl rfl rfl
    · exact shiftPlaced (placed id r found) shift
  · intro id t absent here
    obtain ⟨_,_,_,_,_,_,rfl⟩ | ⟨r,found,_⟩ := shifted id t here
    · exact ⟨rfl,nofun⟩
    · rw [absent] at found
      contradiction
  · intro id r t found here
    obtain ⟨absent,_⟩ | ⟨old,there,shift⟩ := shifted id t here
    · rw [absent] at found
      contradiction
    · rw [found] at there
      cases Option.some.inj there
      exact shiftForward (placed id r found) shift

theorem sameSound (placed : ∀ (id : String) (r : TunnelRow), s.tunnels[id]? = some r → Placed r) (same : m.tunnels = s.tunnels) : Sound s m :=
  shiftedSound placed (fun _ t here => .inr ⟨t,same ▸ here,shiftSame t⟩)

theorem updatedSound (placed : ∀ (id : String) (r : TunnelRow), s.tunnels[id]? = some r → Placed r) {touches : String → TunnelRow → Bool}
    {change : TunnelRow → TunnelRow} (shifts : ∀ (id : String) (r : TunnelRow), s.tunnels[id]? = some r → touches id r → Shift r (change r)) :
    Sound s (Tables.updated touches change s) := by
  refine shiftedSound placed ?_
  intro id t here
  rw [lookupUpdatedRow] at here
  obtain ⟨r,found,same⟩ := Option.map_eq_some_iff.mp here
  refine .inr ⟨r,found,?_⟩
  split at same
  case isTrue hit => exact same ▸ shifts id r found hit
  case isFalse => exact same ▸ shiftSame r

theorem movedShift (moved : Moved s m) (id : String) (t : TunnelRow) (here : m.tunnels[id]? = some t) :
    s.tunnels[id]? = none ∧ Fresh t ∨ ∃ r, s.tunnels[id]? = some r ∧ Shift r t := by
  cases moved with
  | idle => exact .inr ⟨t,here,shiftSame t⟩
  | @created k row absent free fresh =>
    dsimp only at here
    rw [lookupInsert] at here
    split at here
    case isTrue same =>
      cases Option.some.inj here
      exact .inl ⟨same ▸ absent,fresh⟩
    case isFalse => exact .inr ⟨t,here,shiftSame t⟩
  | revoked now found =>
    simp only [Tables.revoked, lookupErase] at here
    split at here <;> try contradiction
    exact .inr ⟨t,here,shiftSame t⟩
  | @transferred k row toSubject found =>
    simp only [Tables.transferred, lookupInsert] at here
    split at here
    case isTrue same =>
      cases Option.some.inj here
      exact .inr ⟨row,same ▸ found,.kept rfl rfl rfl (fun _ => rfl)⟩
    case isFalse => exact .inr ⟨t,here,shiftSame t⟩

theorem completedShift {hostname id : String} {r : TunnelRow} (placed : Placed r) (hit : completable hostname id r) : Shift r (completed r) := by
  have either : r.status = .gruen ∨ r.status = .gelb ∧ r.claimState = .offered := by
    simp only [completable, Bool.and_eq_true, Bool.or_eq_true, decide_eq_true_eq] at hit
    exact hit.2
  obtain green | ⟨_,offers⟩ := either
  · obtain ⟨_,closed⟩ := placedGreen placed green
    exact .kept green.symm rfl closed.symm (fun offers => by rw [closed] at offers; contradiction)
  · exact .completed offers rfl rfl rfl

theorem storeSound {now : Int} {op : Op} (placed : ∀ (id : String) (r : TunnelRow), s.tunnels[id]? = some r → Placed r)
    (stored : Stored now s op m) : Sound s m := by
  cases stored with
  | idle => exact sameSound placed rfl
  | moved moved => exact shiftedSound placed (movedShift moved)
  | queued =>
    refine updatedSound placed (fun id r found hit => .queued ?_ rfl rfl rfl)
    rw [inRot, Bool.and_eq_true, decide_eq_true_eq, decide_eq_true_eq] at hit
    exact hit.2
  | opted => exact updatedSound placed (fun _ _ _ _ => .kept rfl rfl rfl (fun _ => rfl))
  | lapsed =>
    refine updatedSound placed (fun id r found hit => .lapsed ?_ rfl rfl rfl)
    rw [expired, Bool.and_eq_true, decide_eq_true_eq] at hit
    exact hit.1
  | requeued =>
    refine updatedSound placed (fun id r found hit => absurd ?_ (placedOpen (placed id r found)))
    rw [legacyLapsed, Bool.and_eq_true, decide_eq_true_eq] at hit
    exact hit.1
  | reclaimed =>
    refine updatedSound placed (fun id r found hit => absurd ?_ (placedOpen (placed id r found)))
    rw [reclaimable, Bool.and_eq_true, decide_eq_true_eq] at hit
    exact hit.2
  | @completed hostname m done =>
    cases done with
    | idle => exact sameSound placed rfl
    | uncounted => exact updatedSound placed (fun id r found hit => completedShift (placed id r found) hit)
    | counted =>
      have sound := @updatedSound _ placed (completable hostname) _ (fun id r found hit => completedShift (placed id r found) hit)
      exact ⟨sound.placed,sound.fresh,sound.forward⟩
  | pruned => exact sameSound placed rfl

/- An offer is sound where it finds who waits, and only there. -/
theorem offerSound {hostname ca : String} {began deadline : Int} (placed : ∀ (id : String) (r : TunnelRow), s.tunnels[id]? = some r → Placed r) :
    Sound s (Tables.updated (unassigned hostname) (offered ca began deadline) s) ↔ hasRow (unready hostname) s.tunnels = false := by
  have parts (id : String) (r : TunnelRow) : unready hostname id r = (unassigned hostname id r && (r.status = .rot || r.certClaimOptOut)) := rfl
  constructor
  · intro sound
    rw [← Bool.not_eq_true, hasRowIff]
    rintro ⟨id,r,found,hit⟩
    rw [parts, Bool.and_eq_true] at hit
    obtain ⟨free,late⟩ := hit
    have here : (Tables.updated (unassigned hostname) (offered ca began deadline) s).tunnels[id]? = some (offered ca began deadline r) := by
      rw [lookupUpdatedRow, found, Option.map_some, if_pos free]
    have none' : r.assignedCa = none := by
      rw [unassigned, Bool.and_eq_true] at free
      exact Option.isNone_iff_eq_none.mp free.2
    have closed := (placedUnassigned (placed id r found) none').2
    have waits := (sound.forward id r _ found here).offer (by rw [closed]; decide) rfl
    obtain ⟨yellow,_,_,out⟩ := (waitingIff r).mp waits
    rw [yellow, out] at late
    contradiction
  · intro ready
    refine updatedSound placed ?_
    intro id r found free
    have none' : r.assignedCa = none := by
      rw [unassigned, Bool.and_eq_true] at free
      exact Option.isNone_iff_eq_none.mp free.2
    have early : ¬unready hostname id r := fun late => by
      rw [hasRowIff.mpr ⟨id,r,found,late⟩] at ready
      contradiction
    rw [parts, free, Bool.true_and, Bool.or_eq_true, decide_eq_true_eq, not_or] at early
    obtain ⟨red | yellow,closed⟩ := placedUnassigned (placed id r found) none'
    · exact absurd red early.1
    · exact .offered ((waitingIff r).mpr ⟨yellow,closed,none',Bool.eq_false_iff.mpr early.2⟩) rfl rfl rfl rfl

end Steps

section Runs
variable {rotation : List CaProfile} {eabLookup : String → Option String × Option String}

theorem performOffer (hostname ca : String) (began deadline : Int) (s : Tables) (faults : List Bool) :
    (perform (offerClaim hostname ca began deadline) s faults).2 =
      if faults.headD false then s else Tables.updated (unassigned hostname) (offered ca began deadline) s := by
  rw [offerClaim, updateRows, performExecute]
  split <;> rfl

theorem stepOffer {s : State} {call : Call} {hostname ca : String} {began : Int} {queue : List String} (act : call.act = .sweep)
    (picked : s.sweep = .picked began hostname ca queue) :
    (step rotation eabLookup s call).2.tables =
      if call.faults.headD false then s.tables
      else Tables.updated (unassigned hostname) (offered ca began (began + claimWindowSecs)) s.tables := by
  rw [← performOffer]
  unfold step
  rw [act, picked]
  rfl

theorem stepSound {s : State} (placed : ∀ (id : String) (r : TunnelRow), s.tables.tunnels[id]? = some r → Placed r) (call : Call) :
    Sound s.tables (step rotation eabLookup s call).2.tables ↔ overtaken s call = false := by
  cases stepCases rotation eabLookup s call with
  | store op act stored same =>
    rw [overtaken, act]
    exact iff_of_true (storeSound placed stored) rfl
  | sweep act swept =>
    cases sweep : s.sweep with
    | idle =>
      rw [sweep] at swept
      rw [overtaken, act, sweep]
      refine iff_of_true (sameSound placed ?_) rfl
      generalize (step rotation eabLookup s call).2 = m at swept ⊢
      obtain ⟨tables,next⟩ := m
      cases swept <;> rfl
    | listed began queue =>
      rw [sweep] at swept
      rw [overtaken, act, sweep]
      refine iff_of_true (sameSound placed ?_) rfl
      generalize (step rotation eabLookup s call).2 = m at swept ⊢
      obtain ⟨tables,next⟩ := m
      cases swept <;> rfl
    | picked began hostname ca queue =>
      rw [stepOffer act sweep, overtaken, act, sweep]
      dsimp only
      cases fault : call.faults.headD false with
      | true => exact iff_of_true (sameSound placed rfl) rfl
      | false => exact offerSound placed

theorem certAdmissionSound (rotation : List CaProfile) (eabLookup : String → Option String × Option String) (calls : List Call) :
    Machine.along (step rotation eabLookup) (fun s call => Sound s.tables (step rotation eabLookup s call).2.tables) {} calls ↔
      Machine.along (step rotation eabLookup) (fun s call => overtaken s call = false) {} calls := by
  have from' : ∀ (calls : List Call) (s : State), (∀ (id : String) (r : TunnelRow), s.tables.tunnels[id]? = some r → Placed r) →
      (Machine.along (step rotation eabLookup) (fun s call => Sound s.tables (step rotation eabLookup s call).2.tables) s calls ↔
        Machine.along (step rotation eabLookup) (fun s call => overtaken s call = false) s calls) := by
    intro calls
    induction calls with
    | nil => exact fun _ _ => .rfl
    | cons call rest ih =>
      intro s placed
      rw [Machine.along, Machine.along, ← stepSound placed call]
      exact and_congr_right (fun sound => ih _ sound.placed)
  exact from' calls {} (fun id r found => by simp at found)

/- The queue is read, a hostname of it given up and taken again, and the offer goes to the new row, which is red.
Or its owner opts out in between. -/
theorem certAdmissionOvertaken :
    let queued := [Act.store (.lifecycle (.create "anna" "web" (some "www.example.org") "t" "k" 0)),.store (.enterGelbQueue "www.example.org"),.sweep,.sweep]
    let again := queued ++ [.store (.lifecycle (.revoke "anna" "t" 0)),
      .store (.lifecycle (.create "bert" "web" (some "www.example.org") "u" "l" 0)),.sweep]
    let out := queued ++ [.store (.setCertClaimOptOut "anna" "t" true)]
    let ends := fun acts : List Act => (run [letsEncrypt] (fun _ => (none,none)) (acts.map (fun act => ⟨act,0,[]⟩))).tables.tunnels
    (∃ r, (ends again)["u"]? = some r ∧ r.status = .rot ∧ r.assignedCa = some "letsencrypt" ∧ r.claimState = .offered ∧ ¬Placed r) ∧
      (ends out)["t"]?.any (fun r => r.certClaimOptOut && r.claimState = .none) ∧
      (ends (out ++ [.sweep]))["t"]?.any (fun r => r.certClaimOptOut && r.claimState = .offered) := by
  refine ⟨?_,by decide +kernel,by decide +kernel⟩
  let r : TunnelRow :=
    { subject := "bert", name := "web", hostname := some "www.example.org", createdAt := 0, routingToken := "l", assignedCa := some "letsencrypt",
      claimState := .offered, claimOfferedAt := some 0, claimDeadline := some claimWindowSecs }
  refine ⟨r,by decide +kernel,rfl,rfl,rfl,?_⟩
  intro placed
  cases (placedRed placed rfl).2

end Runs
end CadsTunnel.CertAdmission
