import Confide.Clashes
import Confide.ForwarderQueue
import Confide.PeerClient

/-! What servers in order answer, if nothing fails: a push is answered with success or, where it may be tried again, with an
error that says so. -/
namespace Confide

open Bytes Resumption.Prog

variable [BoostJson]

/-- The client sees the code of an error, or the one that its status stands for. -/
theorem HttpClient.outcome_error {e : Error} (other : e.code ≠ .forbidden) : ∃ e', HttpClient.outcome (.error e) = .error e' ∧
    (e'.code = e.code ∨ e'.code = HttpClient.codeFor (statusFor e.code)) := by
  refine ⟨_,rfl,?_⟩
  rw [TransactionHandlers.fail,if_neg other,HttpClient.serverError,Response.error,errorBody,
    BoostJson.parse_serialize _ (by simp [Json.maxDepth,Json.fits])]
  cases (Json.obj [(ascii "error",.str e.code.toString),(ascii "detail",.str e.detail)]).isText with
  | false => exact .inr rfl
  | true =>
    refine .inl ?_
    change (HttpClient.namedCode e.code.toString).getD _ = _
    cases e.code <;> rfl

theorem HttpClient.outcome_transient {e : Error} (transient : Forwarder.isTransient e.code = true) :
    ∃ e', HttpClient.outcome (.error e) = .error e' ∧ Forwarder.isTransient e'.code = true := by
  obtain ⟨e',same,code⟩ := HttpClient.outcome_error (e := e) (by rintro bad; rw [bad] at transient; cases transient)
  refine ⟨e',same,?_⟩
  rcases code with code | code
  · rwa [code]
  · rw [code]
    cases own : e.code <;> rw [own] at transient <;> first | rfl | cases transient

theorem HttpClient.outcome_conflict {e : Error} (conflict : e.code = .conflict) :
    ∃ e', HttpClient.outcome (.error e) = .error e' ∧ e'.code = .conflict := by
  obtain ⟨e',same,code⟩ := HttpClient.outcome_error (e := e) (by rw [conflict]; exact fun bad => by cases bad)
  rw [conflict] at code
  exact ⟨e',same,code.elim id id⟩

variable {sha256 : Bytes → Sha256Digest} {opts : ServiceOptions} {env : Env} {id : TransactionId} {tx : Transaction} {s : Server}
  {caller : Caller}

theorem outgoing_ok (known : s.world.index.lookup id = some tx) (waits : isOutgoing tx = true) :
    (perform sha256 env (TransactionService.outgoing id).run s.world).1 = .ok tx := by
  have found : Leads (Svc.handle sha256 env) (TransactionService.outgoing id) s.world fun result _ => result = .ok tx := by
    unfold TransactionService.outgoing
    rw [leads_find_bind,known]
    dsimp only
    rw [if_pos waits]
    rfl
  exact found

theorem openRead_ok (healthy : Healthy sha256 none s) (known : s.world.index.lookup id = some tx) {entry : FileEntry}
    (listed : entry ∈ tx.files) : ∃ source, (exec env (FileStore.openRead id entry.path).run s.world).1 = .ok source := by
  obtain ⟨content,file,_⟩ := (healthy.folder known).payload.stored entry listed
  rw [openRead_spec,file]
  exact ⟨_,rfl⟩

theorem markDelivered_ok (healthy : Healthy sha256 none s) (faultless : env.Faultless)
    (known : s.world.index.lookup id = some tx) (committed : tx.state = .committed) :
    s.reply sha256 opts env (.markDelivered id) = .ok () := by
  have named := (healthy.folder known).named
  subst named
  have marked : Leads (Svc.handle sha256 env) (TransactionService.markDelivered tx.id) s.world fun result _ =>
    result = .ok () := by
    unfold TransactionService.markDelivered
    simp only [leads_locked,leads_find_bind,known,leads_ensure_bind,leads_now_bind,leads_try_bind,run_save]
    constructor
    · intro e refused
      rw [checkTransition_delivered.mpr committed] at refused
      cases refused
    · intro _ _
      have saved := healthy.resave { tx with state := .delivered, deliveredAt := some env.now } (faultless .save) known
        rfl rfl (by simp [committed]) (by simp [committed])
      rw [saved.1]
      exact ⟨(fun _ bad => by cases bad),fun _ _ => rfl⟩
  have run : s.outcome sha256 opts env (.markDelivered tx.id) = _ := report_run
  rw [Server.reply,run]
  dsimp only [perform]
  rw [show ((TransactionService.markDelivered tx.id).run.run (Svc.handle sha256 env) s.world).1 = .ok () from marked]
  rfl

theorem get_ok (known : s.world.index.lookup id = some tx) (origin : isOriginPeer caller tx = true) :
    (perform sha256 env (TransactionService.get caller id).run s.world).1 = .ok tx := by
  have found : Leads (Svc.handle sha256 env) (TransactionService.get caller id) s.world fun result _ => result = .ok tx := by
    unfold TransactionService.get
    refine leads_lift_bind.mpr (leads_find_bind.mpr ?_)
    have still : (run (Svc.handle sha256 env) (svc (.env .isRecipient)) s.world).2 = s.world := rfl
    rw [still,known]
    dsimp only
    rw [if_pos (by simp [mayRead,origin])]
    rfl
  exact found

theorem beginUpload_ok (healthy : Healthy sha256 none s) (faultless : env.Faultless)
    (known : s.world.index.lookup id = some tx) (allowed : mayWrite caller tx = true) (isOpen : tx.state = .open)
    (path : RelativePath) : s.reply sha256 opts env (.beginUpload caller id path) = .ok () := by
  have ready : Ready s.world.disk id := (healthy.folder known).payload.ready healthy.tmp
  have begun : ∃ u, (Svc.handle sha256 env (.beginUpload id path) s.world).1 = .ok u := by
    have spec := beginWrite_spec env id (payloadPath id path) path (s.world.enter .beginUpload) healthy.fresh
    rw [leads_exec] at spec
    rcases spec with ⟨ok,_⟩ | ⟨e,_,_,unready⟩
    · exact ⟨_,ok⟩
    · exact absurd ready (unready (faultless _))
  have leads : Leads (Svc.handle sha256 env) (TransactionService.beginUpload caller id path) s.world fun result _ =>
      ∃ p, result = .ok p := by
    unfold TransactionService.beginUpload TransactionService.findMutable
    rw [leads_locked,leads_bind]
    simp only [leads_find_bind,known,leads_refuse_bind,leads_ensure_bind,allowed]
    constructor
    · exact fun bad => by cases bad
    · intro _
      constructor
      · intro e refused
        rw [requireMutable_ok.mpr isOpen] at refused
        cases refused
      · intro _ _
        obtain ⟨u,ok⟩ := begun
        rw [leads_pure,leads_try_bind,run_beginUpload,ok]
        exact ⟨(fun _ bad => by cases bad),fun u _ => ⟨_,rfl⟩⟩
  obtain ⟨p,ok⟩ : ∃ p, ((TransactionService.beginUpload caller id path).run.run (Svc.handle sha256 env)
    s.world).1 = .ok p := leads
  simp only [Server.reply,Server.outcome,Op.program,perform,run_bind,ok]
  rfl

theorem writeUpload_transient {k : Nat} {chunk : Bytes} {e : Error}
    (failed : s.reply sha256 opts env (.writeUpload k chunk) = .error e) : Forwarder.isTransient e.code = true := by
  have wrote : ∀ (u : Upload) (w : World), (exec env (u.write chunk) w).1.1 = .error e →
    Forwarder.isTransient e.code = true := by
    intro u w failed
    unfold Upload.write at failed
    split at failed
    · cases failed
      rfl
    split at failed
    · cases failed
    rw [exec_bind] at failed
    split at failed
    · cases failed
    · rw [exec_bind] at failed
      cases failed
      rfl
  unfold Server.reply Server.outcome Op.program at failed
  dsimp only at failed
  split at failed
  · cases failed
    rfl
  · rename_i p _
    simp only [perform,run_bind] at failed
    exact wrote p.upload (s.world.enter .writeUpload) failed

/-- The end of an upload that meets no clash is put off at most. -/
theorem finishUpload_transient {k : Nat} {p : PendingUpload} {expected : Option Sha256Digest} {e : Error}
    (healthy : Healthy sha256 none s) (faultless : env.Faultless) (here : s.pending[k]? = some p)
    (progress : p.upload.done = false)
    (known : s.world.index.lookup p.id = some tx) (isOpen : tx.state = .open) (clear : ¬ Clash tx.files p.upload.path)
    (failed : s.reply sha256 opts env (.finishUpload k expected) = .error e) : Forwarder.isTransient e.code = true := by
  obtain ⟨w,pending⟩ := s
  have live := healthy.live p (List.mem_of_getElem? here) progress
  have folder := healthy.folder known
  obtain ⟨spent,unindexed,done⟩ := live.commit progress sha256 env expected
  have ends : ∀ e, (perform sha256 env (TransactionService.finishUpload p expected) w).1.1 = .error e →
      Forwarder.isTransient e.code = true := by
    apply finishUpload_rule (P := fun result _ => ∀ e, result.1 = .error e → Forwarder.isTransient e.code = true)
    · exact fun absent => absurd absent (by simp [known])
    · intro tx' _ known' closed
      obtain rfl := Option.some.inj (known.symm.trans known')
      exact absurd isOpen closed
    · intro tx' e u w₁ known' _ run _ failed
      cases failed
      rw [run] at done
      obtain ⟨bad,_⟩ | ⟨e',disk,same,_,_,clean⟩ := done
      · cases bad
      cases same
      obtain ⟨_,_,refused⟩ := clean (faultless _)
      generalize e.code = code at refused
      cases refused with
      | checksum => rfl
      | fileAbove q content above file =>
        obtain ⟨entry,member,above⟩ := folder.payload.above_of_file (live.final ▸ above) file
        exact absurd ⟨entry,member,.inl above⟩ clear
      | folder there =>
        obtain ⟨entry,member,above⟩ := folder.payload.above_of_folder (live.final ▸ there)
        exact absurd ⟨entry,member,.inr above⟩ clear
    · intro tx' file u w₁ known' _ run
      obtain rfl := Option.some.inj (known.symm.trans known')
      rw [run] at spent unindexed done
      obtain rfl : u = { p.upload with done := true } := spent
      obtain ⟨ok,_,free,moved⟩ | ⟨_,_,bad,_⟩ := done
      swap
      · cases bad
      obtain rfl : file = ⟨p.upload.path,p.upload.size,sha256 p.upload.hashed⟩ := Except.ok.inj ok
      obtain ⟨ok,_⟩ := healthy.listed here progress { p with upload := { p.upload with done := true } } rfl known isOpen
        unindexed moved faultless rfl
      constructor
      · intro e failed
        rw [StoredFile.entry,ok] at failed
        cases failed
      · exact fun _ _ _ bad => by cases bad
  have reply : Server.reply sha256 opts env ⟨w,pending⟩ (.finishUpload k expected) =
      (perform sha256 env (TransactionService.finishUpload p expected) w).1.1.map fun _ => () := by
    simp only [Server.reply,Server.outcome,Op.program,here,perform,run_bind]
    rfl
  rw [reply] at failed
  cases result : (perform sha256 env (TransactionService.finishUpload p expected) w).1.1 with
  | error e' =>
    rw [result] at failed
    cases failed
    exact ends _ result
  | ok =>
    rw [result] at failed
    cases failed

theorem commit_ok (healthy : Healthy sha256 none s) (faultless : env.Faultless)
    (known : s.world.index.lookup id = some tx) (allowed : mayWrite caller tx = true) (isOpen : tx.state = .open) :
    s.reply sha256 opts env (.commit caller id) = .ok () := by
  have leads : Leads (Svc.handle sha256 env) (TransactionService.commit caller id) s.world _ :=
    commit_leads healthy faultless caller id
  have ok := leads.2 tx known allowed isOpen
  have run : s.outcome sha256 opts env (.commit caller id) = _ := report_run
  rw [Server.reply,run]
  dsimp only [perform]
  rw [ok]
  rfl

/-- What is announced is stored, or is there already. -/
theorem receive_ok (caller : Caller) (healthy : Healthy sha256 none s) (faultless : env.Faultless)
    (isPeer : caller.isPeer = true) (plain : (Forwarder.announce tx).Plain) (receivable : Receivable opts tx)
    (accepted : env.destination tx.targetUser [] = .ok ()) :
    s.reply sha256 opts env (.receive caller (Forwarder.announce tx)) = .ok () ∨
      (∃ e, s.reply sha256 opts env (.receive caller (Forwarder.announce tx)) = .error e ∧ e.code = .conflict) ∧
        s.world.index.lookup tx.id ≠ none := by
  obtain ⟨reply,_⟩ := receive_step sha256 s isPeer plain.sender.1 plain.targetUser.1 receivable.lasts receivable.comment accepted
  rw [reply]
  have agrees := healthy.agrees tx.id (by simp)
  cases known : s.world.index.lookup tx.id with
  | none =>
    rw [known] at agrees
    exact .inl ((insert_effect sha256 env _ s.world healthy.fresh).works (faultless .insert) known healthy.tmp
      healthy.top agrees)
  | some old =>
    refine .inr ⟨?_,by simp⟩
    have refused : Leads (Sys.handle env)
      (TransactionRepository.insert sha256 ((Forwarder.announce tx).copy caller.name)) s.world
        fun result _ => ∃ e, result = .error e ∧ e.code = .conflict := by
      simp only [TransactionRepository.insert,call_eq,leads_exec_bind,exec_enter,exec_indexFind,enter_index,leads_refuse_bind]
      constructor
      · exact fun _ => ⟨_,rfl,rfl⟩
      · intro absent
        rw [show ((Forwarder.announce tx).copy caller.name).id = tx.id from rfl,known] at absent
        cases absent
    exact refused

end Confide
