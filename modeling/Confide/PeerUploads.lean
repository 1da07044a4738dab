import Confide.PeerSteps
import Confide.Uploads

/-! The uploads of the receiving server, and the requests they belong to. -/
namespace Confide

open Resumption Resumption.Prog

variable {k : Nat}

section Pending

variable (sha256 : Bytes → Sha256Digest) (opts : ServiceOptions) (env : Env) (s : Server)

theorem beginUpload_pending [BoostJson] (caller : Caller) (id : TransactionId) (path : RelativePath) :
    (s.reply sha256 opts env (.beginUpload caller id path) = .ok () ∧
        ∃ n, (s.step sha256 opts env (.beginUpload caller id path)).pending =
          s.pending ++ [⟨id,caller,tmpPath id n,payloadPath id path,path,[],0,false⟩]) ∨
      ((∃ e, s.reply sha256 opts env (.beginUpload caller id path) = .error e) ∧
        (s.step sha256 opts env (.beginUpload caller id path)).pending = s.pending) := by
  have shape := ((@beginUpload_obeys sha256 opts env s.pending s.world.book caller id path).sound (Svc.handle sha256 env)
    World.book fun c w => handle_books sha256 env c w).1.2
  unfold Server.reply Server.step Server.outcome Op.program perform
  simp only [run_bind]
  cases begun : (run (Svc.handle sha256 env) (TransactionService.beginUpload caller id path).run s.world).1 with
  | error e => exact .inr ⟨⟨e,rfl⟩,rfl⟩
  | ok p =>
    obtain ⟨_,n,_,_,_,rfl⟩ := shape p begun
    exact .inl ⟨rfl,n,rfl⟩

theorem write_ok {env : Env} {u : Upload} {chunk : Bytes} {w : World} (ok : (exec env (u.write chunk) w).1.1 = .ok ()) :
    u.done = false ∧ (exec env (u.write chunk) w).1.2 =
      { u with hashed := u.hashed ++ chunk, size := u.size + UInt64.ofNat chunk.length } := by
  unfold Upload.write at ok ⊢
  split at ok
  · contradiction
  rename_i progress
  split at ok
  · rename_i empty
    obtain ⟨_,_,_,_,_,_⟩ := u
    simp_all
  rename_i inhabited
  rw [exec_bind] at ok
  rw [if_neg progress,if_neg inhabited,exec_bind]
  generalize exec env (sys (.append u.tmp chunk)) w = outcome at ok ⊢
  obtain ⟨_ | _,w'⟩ := outcome
  · cases ok
  · exact ⟨by simpa using progress,rfl⟩

variable [BoostJson]

theorem writeUpload_pending {p : PendingUpload} (here : s.pending[k]? = some p) (chunk : Bytes)
    (ok : s.reply sha256 opts env (.writeUpload k chunk) = .ok ()) :
    p.upload.done = false ∧ (s.step sha256 opts env (.writeUpload k chunk)).pending = s.pending.set k { p with
      upload := { p.upload with
        hashed := p.upload.hashed ++ chunk
        size := p.upload.size + UInt64.ofNat chunk.length } } := by
  have run : s.outcome sha256 opts env (.writeUpload k chunk) =
      let outcome := exec env (p.upload.write chunk) (s.world.enter .writeUpload)
      ((outcome.1.1,s.pending.set k { p with upload := outcome.1.2 }),outcome.2) := by
    simp only [Server.outcome,Op.program,here,perform,TransactionService.writeUpload,run_bind]
    rfl
  rw [Server.reply,run] at ok
  obtain ⟨progress,written⟩ := write_ok ok
  rw [Server.step,run]
  exact ⟨progress,by rw [← written]⟩

theorem dropUpload_pending (k : Nat) : (s.step sha256 opts env (.dropUpload k)).pending = s.pending.eraseIdx k := by
  unfold Server.step Server.outcome Op.program
  dsimp only
  split
  · rename_i absent
    rw [List.eraseIdx_of_length_le (List.getElem?_eq_none_iff.mp absent)]
    rfl
  · simp [perform]

end Pending

namespace Peering

variable {cfg : PeerConfig} {s s' : Peering} {act : PeerAct}

/-- An upload holds as much of the request's body as is not left, and is checked against what the request says. -/
structure Carries (cfg : PeerConfig) (sent : List PeerRequest) (put : Put) (p : PendingUpload) : Prop where
  caller : p.caller = peer cfg
  progress : p.upload.done = false
  size : p.upload.size = UInt64.ofNat p.upload.hashed.length
  request : ∃ size, sent[put.ticket]? = some (.put p.id p.upload.path size put.sha256 (p.upload.hashed ++ put.left)) ∧
    put.whole = decide ((p.upload.hashed ++ put.left).length = size.toNat)

structure Tracks (cfg : PeerConfig) (s : Peering) : Prop where
  length : s.uploads.length = s.b.pending.length
  carries : ∀ (j : Nat) put p, s.uploads[j]? = some (some put) → s.b.pending[j]? = some p → Carries cfg s.wire.sent put p

theorem Carries.mono {sent sent' : List PeerRequest} {put : Put} {p : PendingUpload} (carries : Carries cfg sent put p)
    (longer : sent <+: sent') : Carries cfg sent' put p := by
  obtain ⟨more,rfl⟩ := longer
  obtain ⟨size,there,whole⟩ := carries.request
  exact ⟨carries.caller,carries.progress,carries.size,size,Wire.getElem?_append there,whole⟩

theorem Did.keeps_sent [BoostJson] (did : s.Did cfg act s') : s.wire.sent <+: s'.wire.sent := by
  cases did with
  | nothing | served | restarted | pushed | called | vanished | wrote | stuck | finished | broken | others | marked
  | unmarked | removed => exact List.prefix_refl _
  | sent => exact Wire.send_longer
  | heard => exact Wire.hear_sent.symm ▸ List.prefix_refl _
  | lost => exact Wire.lose_sent.symm ▸ List.prefix_refl _
  | arrived =>
    have frame := receive_frame cfg
    exact (frame _ _ _ _).2.2.1.symm ▸ List.prefix_refl _

theorem Tracks.pending {j : Nat} {put : Put} (tracks : Tracks cfg s) (here : s.uploads[j]? = some (some put)) :
    ∃ p, s.b.pending[j]? = some p := by
  have bound := (List.getElem?_eq_some_iff.mp here).1
  rw [tracks.length] at bound
  exact ⟨_,List.getElem?_eq_getElem bound⟩

variable {entry : Option Put} {new : PendingUpload}

section Frames

variable (tracks : Tracks cfg s) (sent : s.wire.sent <+: s'.wire.sent)

include tracks sent

theorem Tracks.keep (uploads : s'.uploads = s.uploads) (pending : s'.b.pending = s.b.pending) : Tracks cfg s' := by
  constructor
  · rw [uploads,pending,tracks.length]
  · intro j put p here there
    rw [uploads] at here
    rw [pending] at there
    exact (tracks.carries j put p here there).mono sent

theorem Tracks.append (uploads : s'.uploads = s.uploads ++ [entry])
    (pending : s'.b.pending = s.b.pending ++ [new]) (carries : ∀ put ∈ entry, Carries cfg s'.wire.sent put new) :
    Tracks cfg s' := by
  constructor
  · rw [uploads,pending,List.length_append,List.length_append,tracks.length]
    rfl
  · intro j put p here there
    rw [uploads,List.getElem?_append] at here
    rw [pending,List.getElem?_append,← tracks.length] at there
    split at here
    · rw [if_pos (by assumption)] at there
      exact (tracks.carries j put p here there).mono sent
    · rw [if_neg (by assumption)] at there
      obtain rfl := List.mem_singleton.mp (List.mem_of_getElem? here)
      obtain rfl := List.mem_singleton.mp (List.mem_of_getElem? there)
      exact carries put rfl

theorem Tracks.set (uploads : s'.uploads = s.uploads.set k entry)
    (pending : s'.b.pending = s.b.pending.set k new) (carries : ∀ put ∈ entry, Carries cfg s'.wire.sent put new) :
    Tracks cfg s' := by
  constructor
  · rw [uploads,pending,List.length_set,List.length_set,tracks.length]
  · intro j put p here there
    rw [uploads,List.getElem?_set] at here
    rw [pending,List.getElem?_set,← tracks.length] at there
    split at here
    · rw [if_pos (by assumption)] at there
      split at here
      · rw [if_pos (by assumption)] at there
        cases here
        cases there
        exact carries put rfl
      · cases here
    · rw [if_neg (by assumption)] at there
      exact (tracks.carries j put p here there).mono sent

theorem Tracks.erase (uploads : s'.uploads = s.uploads.eraseIdx k)
    (pending : s'.b.pending = s.b.pending.eraseIdx k) : Tracks cfg s' := by
  constructor
  · rw [uploads,pending,List.length_eraseIdx,List.length_eraseIdx,tracks.length]
  · intro j put p here there
    rw [uploads,List.getElem?_eraseIdx] at here
    rw [pending,List.getElem?_eraseIdx] at there
    split at here
    · rw [if_pos (by assumption)] at there
      exact (tracks.carries _ put p here there).mono sent
    · rw [if_neg (by assumption)] at there
      exact (tracks.carries _ put p here there).mono sent

end Frames

theorem drop_pending [BoostJson] (env : Env) (j : Nat) : (s.drop cfg env j).b.pending = s.b.pending.eraseIdx j :=
  dropUpload_pending cfg.sha256 cfg.bOpts env s.b j

/-- An upload that has ended goes with its entry. -/
theorem Tracks.drop [BoostJson] {t : Peering} {env : Env} {j : Nat} (tracks : Tracks cfg s) (sent : s.wire.sent = t.wire.sent)
    (uploads : t.uploads = s.uploads) (pending : t.b.pending.eraseIdx j = s.b.pending.eraseIdx j) :
    Tracks cfg (t.drop cfg env j) := by
  refine tracks.erase (sent ▸ List.prefix_refl _) ?_ ((drop_pending env j).trans pending)
  exact congrArg (·.eraseIdx j) uploads

variable {pending pending' : List PendingUpload} {i : Index} {op : Op}

theorem holds_same (holds : Holds pending i op pending')
    (none : op.upload = none) (other : op.begins = false) : pending' = pending := by
  cases holds with
  | same => rfl
  | began => cases other
  | wrote => cases none
  | finished => cases none
  | dropped => cases none

/-- Writing and finishing are about one upload. -/
theorem holds_one (holds : Holds pending i op pending')
    (its : op.upload = some k) (stays : op ≠ .dropUpload k) : pending' = pending ∨ ∃ new, pending' = pending.set k new := by
  cases holds with
  | same => exact .inl rfl
  | began => cases its
  | wrote =>
    cases its
    exact .inr ⟨_,rfl⟩
  | finished =>
    cases its
    exact .inr ⟨_,rfl⟩
  | dropped =>
    cases its
    exact absurd rfl stays

/-- After which it may be dropped. -/
theorem holds_erase (holds : Holds pending i op pending')
    (its : op.upload = some k) (stays : op ≠ .dropUpload k) : pending'.eraseIdx k = pending.eraseIdx k := by
  rcases holds_one holds its stays with rfl | ⟨new,rfl⟩
  · rfl
  · exact List.eraseIdx_set_eq

variable (cfg) in
theorem operate_pending [BoostJson] (keyed : Keyed s.b.world.index) (env : Env) (op : Op) :
    Holds s.b.pending s.b.world.index op (s.operate cfg env op).b.pending :=
  (step_takes cfg.sha256 cfg.bOpts env keyed op).1.2

section Begun

variable {env : Env} {caller : Caller} {id : TransactionId} {path : RelativePath} {e : Error}

variable [BoostJson]

theorem opened_pending (ok : s.result cfg env (.beginUpload caller id path) = .ok ()) :
    ∃ n, (s.operate cfg env (.beginUpload caller id path)).b.pending =
      s.b.pending ++ [⟨id,caller,tmpPath id n,payloadPath id path,path,[],0,false⟩] := by
  rcases beginUpload_pending cfg.sha256 cfg.bOpts env s.b caller id path with ⟨_,opened⟩ | ⟨⟨e,error⟩,_⟩
  · exact opened
  · cases ok.symm.trans error

theorem unopened_pending (failed : s.result cfg env (.beginUpload caller id path) = .error e) :
    (s.operate cfg env (.beginUpload caller id path)).b.pending = s.b.pending := by
  rcases beginUpload_pending cfg.sha256 cfg.bOpts env s.b caller id path with ⟨ok,_⟩ | ⟨_,same⟩
  · cases failed.symm.trans ok
  · exact same

end Begun

variable {ticket : Nat} {request : PeerRequest}

theorem receive_tracks [BoostJson] {env : Env} (tracks : Tracks cfg s)
    (keyed : Keyed s.b.world.index) (there : s.wire.sent[ticket]? = some request) :
    Tracks cfg (s.receive cfg env ticket request) := by
  have refl := List.prefix_refl s.wire.sent
  have received := receive_received cfg s env ticket request
  generalize s.receive cfg env ticket request = s' at received
  cases received with
  | unread | got => exact tracks.keep refl rfl rfl
  | taken | committed => exact tracks.keep refl rfl (holds_same (operate_pending cfg keyed env _) rfl rfl)
  | @unopened id path size sha256 body e failed =>
    exact tracks.keep refl rfl (unopened_pending failed)
  | @opened id path size sha256 body ok =>
    obtain ⟨n,pending⟩ := opened_pending ok
    refine tracks.append refl rfl pending ?_
    rintro _ ⟨⟩
    exact ⟨rfl,rfl,rfl,size,there,rfl⟩

/-- The uploads of others belong to no request. -/
theorem foreign_upload (foreign : s.foreign cfg op = true) (its : op.upload = some k) :
    s.uploads[k]? = some none := by
  simp only [Peering.foreign,Bool.and_eq_true,its,Option.all_some] at foreign
  simpa [Option.any_eq_true,Option.isNone_iff_eq_none] using foreign.1.2

theorem others_tracks [BoostJson] {env : Env} (tracks : Tracks cfg s) (keyed : Keyed s.b.world.index)
    (foreign : s.foreign cfg op = true) : Tracks cfg { s.operate cfg env op with uploads := s.follow cfg env op } := by
  have holds := operate_pending cfg keyed env op
  have refl := List.prefix_refl s.wire.sent
  have one : ∀ k, op.upload = some k → op ≠ .dropUpload k → s.follow cfg env op = s.uploads →
      Tracks cfg { s.operate cfg env op with uploads := s.follow cfg env op } := by
    intro k its stays follow
    rcases holds_one holds its stays with same | ⟨new,set⟩
    · exact tracks.keep refl follow same
    · obtain ⟨bound,value⟩ := List.getElem?_eq_some_iff.mp (foreign_upload foreign its)
      have unset : s.uploads.set k none = s.uploads := by rw [← value,List.set_getElem_self]
      exact tracks.set refl (follow.trans unset.symm) set (by simp)
  cases op with
  | beginUpload caller id path =>
    unfold follow
    dsimp only
    split
    · rename_i ok
      obtain ⟨n,pending⟩ := opened_pending ok
      exact tracks.append refl rfl pending (by simp)
    · rename_i failed
      have same := unopened_pending failed
      exact tracks.keep refl rfl same
  | writeUpload k chunk => exact one k rfl nofun rfl
  | finishUpload k expected => exact one k rfl nofun rfl
  | dropUpload k => exact tracks.erase refl rfl (dropUpload_pending cfg.sha256 cfg.bOpts env s.b k)
  | create | removeFile | commit | receive | markDelivered | setRetention | expire | adminDelete =>
    exact tracks.keep refl rfl (holds_same holds rfl rfl)

theorem Did.tracks [BoostJson] (did : s.Did cfg act s') (keyed : Keyed s.b.world.index) (tracks : Tracks cfg s) : Tracks cfg s' := by
  have longer := did.keeps_sent
  cases did with
  | nothing | served | restarted | pushed | called | sent | heard | lost | vanished | marked | unmarked | removed =>
    exact tracks.keep longer rfl rfl
  | @arrived k env ticket request arrives free =>
    have there : s.wire.sent[ticket]? = some request := Wire.arriving_eq arrives
    exact receive_tracks (s := { s with wire := s.wire.vanish k }) (tracks.keep (List.prefix_refl _) rfl rfl) keyed there
  | @wrote j env n put here more ok =>
    obtain ⟨p,there⟩ := tracks.pending here
    obtain ⟨progress,pending⟩ := writeUpload_pending cfg.sha256 cfg.bOpts env s.b there _ ok
    obtain ⟨caller,_,size,claimed,request,whole⟩ := tracks.carries j put p here there
    have body : p.upload.hashed ++ put.left.take (n + 1) ++ put.left.drop (n + 1) = p.upload.hashed ++ put.left := by
      rw [List.append_assoc,List.take_append_drop]
    refine tracks.set longer rfl pending ?_
    rintro _ ⟨⟩
    refine ⟨caller,progress,?_,claimed,?_,?_⟩
    · simp only [size,List.length_append,UInt64.ofNat_add]
    · exact body ▸ request
    · exact body ▸ whole
  | @stuck j env n put e here failed =>
    have pending := holds_erase (operate_pending cfg keyed env (.writeUpload j (put.left.take (n + 1)))) rfl nofun
    exact (tracks.drop (t := s.operate cfg env _) rfl rfl pending).keep (List.prefix_refl _) rfl rfl
  | @finished j env put here left whole free =>
    have pending := holds_erase (operate_pending cfg keyed env (.finishUpload j (some put.sha256))) rfl nofun
    exact (tracks.drop (t := s.operate cfg env _) rfl rfl pending).keep (List.prefix_refl _) rfl rfl
  | @broken j env put here => exact tracks.drop rfl rfl rfl
  | @others env op foreign => exact others_tracks tracks keyed foreign

/-- The ids of the uploads in progress, and whether an attempt of the sending server is behind them. -/
def Marked (s : Peering) (attempt : Bool) (id : TransactionId) : Prop :=
  ∃ (j : Nat) (entry : Option Put) (p : PendingUpload), s.uploads[j]? = some entry ∧ s.b.pending[j]? = some p ∧
    entry.isSome = attempt ∧ p.id = id

/-- A new one has been begun by someone who may write. -/
def Began (cfg : PeerConfig) (s : Peering) (attempt : Bool) (id : TransactionId) : Prop :=
  ∃ caller tx, s.b.world.index.lookup id = some tx ∧ mayWrite caller tx = true ∧
    (caller.isPeer && caller.name == cfg.aName) = attempt

variable {attempt : Bool} {id : TransactionId}

theorem Marked.keep (marked : Marked s' attempt id) (uploads : s'.uploads = s.uploads)
    (pending : s'.b.pending.map (·.id) = s.b.pending.map (·.id)) : Marked s attempt id := by
  obtain ⟨j,entry,p',here,there,behind,named⟩ := marked
  have same := congrArg (·[j]?) pending
  simp only [List.getElem?_map,there,Option.map_some] at same
  obtain ⟨p,old,id⟩ := Option.map_eq_some_iff.mp same.symm
  exact ⟨j,entry,p,uploads ▸ here,old,behind,id.trans named⟩

theorem Marked.erase (marked : Marked s' attempt id)
    (uploads : s'.uploads = s.uploads.eraseIdx k) (pending : s'.b.pending = s.b.pending.eraseIdx k) : Marked s attempt id := by
  obtain ⟨j,entry,p,here,there,behind,named⟩ := marked
  rw [uploads,List.getElem?_eraseIdx] at here
  rw [pending,List.getElem?_eraseIdx] at there
  split at here
  · rw [if_pos (by assumption)] at there
    exact ⟨j,entry,p,here,there,behind,named⟩
  · rw [if_neg (by assumption)] at there
    exact ⟨j + 1,entry,p,here,there,behind,named⟩

theorem Marked.append (marked : Marked s' attempt id) (length : s.uploads.length = s.b.pending.length)
    (uploads : s'.uploads = s.uploads ++ [entry]) (pending : s'.b.pending = s.b.pending ++ [new]) :
    Marked s attempt id ∨ (attempt = entry.isSome ∧ id = new.id) := by
  obtain ⟨j,entry',p,here,there,behind,named⟩ := marked
  rw [uploads,List.getElem?_append] at here
  rw [pending,List.getElem?_append,← length] at there
  split at here
  · rw [if_pos (by assumption)] at there
    exact .inl ⟨j,entry',p,here,there,behind,named⟩
  · rw [if_neg (by assumption)] at there
    obtain rfl := List.mem_singleton.mp (List.mem_of_getElem? here)
    obtain rfl := List.mem_singleton.mp (List.mem_of_getElem? there)
    exact .inr ⟨behind.symm,named.symm⟩

/-- Only begun and dropped uploads change the ids. -/
theorem holds_ids (holds : Holds pending i op pending')
    (other : op.begins = false) (stays : ∀ k, op ≠ .dropUpload k) : pending'.map (·.id) = pending.map (·.id) := by
  have set : ∀ {k : Nat} {p : PendingUpload} {u : Upload}, pending[k]? = some p →
      (pending.set k { p with upload := u }).map (·.id) = pending.map (·.id) := by
    intro k p u here
    obtain ⟨bound,rfl⟩ := List.getElem?_eq_some_iff.mp here
    rw [List.map_set]
    apply List.ext_getElem?
    intro j
    rw [List.getElem?_set]
    split
    · rename_i same
      subst same
      simp [bound]
    · rfl
  cases holds with
  | same => rfl
  | began => cases other
  | wrote here => exact set here
  | finished here => exact set here
  | dropped => exact absurd rfl (stays _)

theorem began_upload {caller : Caller}
    {path : RelativePath} (holds : Holds pending i (.beginUpload caller id path) pending')
    (appended : pending' = pending ++ [new]) : ∃ tx, i.lookup id = some tx ∧ mayWrite caller tx = true := by
  cases holds with
  | same =>
    have length := congrArg List.length appended
    simp at length
  | began n known allowed => exact ⟨_,known,allowed⟩

variable [BoostJson]

theorem receive_marked {env : Env}
    (tracks : Tracks cfg s) (keyed : Keyed s.b.world.index) (marked : Marked (s.receive cfg env ticket request) attempt id) :
    Marked s attempt id ∨ Began cfg s attempt id := by
  have received := receive_received cfg s env ticket request
  generalize s.receive cfg env ticket request = s' at received marked
  cases received with
  | unread | got => exact .inl (marked.keep rfl rfl)
  | taken | committed => exact .inl (marked.keep rfl (congrArg _ (holds_same (operate_pending cfg keyed env _) rfl rfl)))
  | @unopened id' path size sha256 body e failed => exact .inl (marked.keep rfl (congrArg _ (unopened_pending failed)))
  | @opened id' path size sha256 body ok =>
    obtain ⟨n,pending⟩ := opened_pending ok
    rcases marked.append tracks.length rfl pending with old | ⟨rfl,rfl⟩
    · exact .inl old
    · obtain ⟨tx,known,allowed⟩ := began_upload (operate_pending cfg keyed env (.beginUpload (peer cfg) id path)) pending
      exact .inr ⟨peer cfg,tx,known,allowed,by simp [peer]⟩

theorem others_marked {env : Env} (tracks : Tracks cfg s)
    (keyed : Keyed s.b.world.index) (foreign : s.foreign cfg op = true)
    (marked : Marked { s.operate cfg env op with uploads := s.follow cfg env op } attempt id) :
    Marked s attempt id ∨ Began cfg s attempt id := by
  have holds := operate_pending cfg keyed env op
  cases op with
  | beginUpload caller id' path =>
    unfold follow at marked
    dsimp only at marked
    split at marked
    · rename_i ok
      obtain ⟨n,pending⟩ := opened_pending ok
      rcases marked.append tracks.length rfl pending with old | ⟨rfl,rfl⟩
      · exact .inl old
      · obtain ⟨tx,known,allowed⟩ := began_upload holds pending
        refine .inr ⟨caller,tx,known,allowed,?_⟩
        simp only [Peering.foreign,Op.caller,Option.all_some,Bool.and_eq_true,Bool.not_eq_true'] at foreign
        exact foreign.1.1.1
    · rename_i failed
      have same := unopened_pending failed
      exact .inl (marked.keep rfl (congrArg _ same))
  | dropUpload k => exact .inl (marked.erase rfl (dropUpload_pending cfg.sha256 cfg.bOpts env s.b k))
  | writeUpload | finishUpload | create | removeFile | commit | receive | markDelivered | setRetention | expire | adminDelete =>
    exact .inl (marked.keep rfl (holds_ids holds rfl fun _ bad => by cases bad))

/-- An upload was there before the step, or has been begun by it. -/
theorem Did.marks (did : s.Did cfg act s') (keyed : Keyed s.b.world.index)
    (tracks : Tracks cfg s) (marked : Marked s' attempt id) : Marked s attempt id ∨ Began cfg s attempt id := by
  cases did with
  | nothing | served | restarted | pushed | called | sent | heard | lost | vanished | marked | unmarked | removed =>
    exact .inl (marked.keep rfl rfl)
  | @arrived k env ticket request arrives free =>
    have vanished : Tracks cfg { s with wire := s.wire.vanish k } := tracks.keep (List.prefix_refl _) rfl rfl
    exact receive_marked (s := { s with wire := s.wire.vanish k }) vanished keyed marked
  | @wrote j env n put here more ok =>
    refine .inl ?_
    obtain ⟨k,entry,p',at_,there,behind,named⟩ := marked
    have ids := holds_ids (operate_pending cfg keyed env (.writeUpload j (put.left.take (n + 1)))) rfl
      fun _ bad => by cases bad
    have same := congrArg (·[k]?) ids
    change ((s.operate cfg env (.writeUpload j (put.left.take (n + 1)))).b.pending)[k]? = some p' at there
    simp only [List.getElem?_map,there,Option.map_some] at same
    obtain ⟨p,old,id⟩ := Option.map_eq_some_iff.mp same.symm
    change (s.uploads.set j (some { put with left := put.left.drop (n + 1) }))[k]? = some entry at at_
    rw [List.getElem?_set] at at_
    split at at_
    · rename_i equal
      subst equal
      split at at_
      · cases at_
        exact ⟨j,some put,p,here,old,behind,id.trans named⟩
      · cases at_
    · exact ⟨k,entry,p,at_,old,behind,id.trans named⟩
  | @stuck j env n put e here failed =>
    have pending := holds_erase (operate_pending cfg keyed env (.writeUpload j (put.left.take (n + 1)))) rfl
      fun bad => by cases bad
    exact .inl (marked.erase rfl ((drop_pending env j).trans pending))
  | @finished j env put here left whole free =>
    have pending := holds_erase (operate_pending cfg keyed env (.finishUpload j (some put.sha256))) rfl
      fun bad => by cases bad
    exact .inl (marked.erase rfl ((drop_pending env j).trans pending))
  | @broken j env put here => exact .inl (marked.erase rfl (drop_pending env j))
  | @others env op foreign => exact others_marked tracks keyed foreign marked

inductive Answers (cfg : PeerConfig) (s s' : Peering) : PeerAct → PeerRequest → Result Bytes → Prop
  | unread {k : Nat} {env : Env} {ticket : Nat} {body : Bytes} {e : Error}
    (arrives : s.wire.arriving k = some (ticket,.receive body)) (bad : Api.decodeReceive body = .error e) :
    Answers cfg s s' (.arrive k env) (.receive body) (.error e)
  | received {k : Nat} {env : Env} {ticket : Nat} {body : Bytes} {req : ReceiveRequest}
    (arrives : s.wire.arriving k = some (ticket,.receive body)) (reads : Api.decodeReceive body = .ok req)
    (after : s'.b = (s.operate cfg env (.receive (peer cfg) req)).b) :
    Answers cfg s s' (.arrive k env) (.receive body) ((s.result cfg env (.receive (peer cfg) req)).map fun _ => [])
  | got {k : Nat} {env : Env} {ticket : Nat} {id : TransactionId} (arrives : s.wire.arriving k = some (ticket,.get id)) :
    Answers cfg s s' (.arrive k env) (.get id)
      ((perform cfg.sha256 env (TransactionService.get (peer cfg) id).run s.b.world).1.map Api.encodeTransaction)
  | committed {k : Nat} {env : Env} {ticket : Nat} {id : TransactionId}
    (arrives : s.wire.arriving k = some (ticket,.commit id))
    (after : s'.b = (s.operate cfg env (.commit (peer cfg) id)).b) :
    Answers cfg s s' (.arrive k env) (.commit id) ((s.result cfg env (.commit (peer cfg) id)).map fun _ => [])
  | unopened {k : Nat} {env : Env} {ticket : Nat} {id : TransactionId} {path : RelativePath} {size : UInt64}
    {sha256 : Sha256Digest} {body : Bytes} {e : Error}
    (arrives : s.wire.arriving k = some (ticket,.put id path size sha256 body))
    (failed : s.result cfg env (.beginUpload (peer cfg) id path) = .error e) :
    Answers cfg s s' (.arrive k env) (.put id path size sha256 body) (.error e)
  | stuck {j : Nat} {env : Env} {n : Nat} {put : Put} {p : PendingUpload} {size : UInt64} {e : Error}
    (here : s.uploads[j]? = some (some put)) (there : s.b.pending[j]? = some p)
    (failed : s.result cfg env (.writeUpload j (put.left.take (n + 1))) = .error e) :
    Answers cfg s s' (.write j env n) (.put p.id p.upload.path size put.sha256 (p.upload.hashed ++ put.left)) (.error e)
  | finished {j : Nat} {env : Env} {put : Put} {p : PendingUpload} {size : UInt64}
    (here : s.uploads[j]? = some (some put)) (there : s.b.pending[j]? = some p) (left : put.left = [])
    (whole : (p.upload.hashed ++ put.left).length = size.toNat) (free : s.busy p.id = false)
    (after : s'.b = ((s.operate cfg env (.finishUpload j (some put.sha256))).drop cfg env j).b) :
    Answers cfg s s' (.finish j env) (.put p.id p.upload.path size put.sha256 (p.upload.hashed ++ put.left))
      ((s.result cfg env (.finishUpload j (some put.sha256))).map fun _ => [])

section Facts

variable {fact fact' : Event Fwd → Prop}

abbrev Fits (s : Peering) (fact : Event Fwd → Prop) : Prop := s.wire.Fits Forwarder.May Forwarder.Ends fact

theorem receive_fits {env : Env} (fits : s.Fits fact) (arrives : s.wire.arriving k = some (ticket,request))
    (answers : ∀ request' result, Answers cfg s ({ s with wire := s.wire.vanish k }.receive cfg env ticket request)
      (.arrive k env) request' result → fact (Forwarder.told request' (HttpClient.outcome result))) :
    ({ s with wire := s.wire.vanish k }.receive cfg env ticket request).Fits fact := by
  have there : s.wire.sent[ticket]? = some request := Wire.arriving_eq arrives
  have vanished := fits.vanish k
  have received := receive_received cfg { s with wire := s.wire.vanish k } env ticket request
  generalize receive cfg { s with wire := s.wire.vanish k } env ticket request = s' at received answers
  cases received with
  | unread bad => exact vanished.answer there (answers _ _ (.unread arrives bad))
  | taken reads => exact vanished.answer there (answers _ _ (.received arrives reads rfl))
  | got => exact vanished.answer there (answers _ _ (.got arrives))
  | committed => exact vanished.answer there (answers _ _ (.committed arrives rfl))
  | unopened failed => exact vanished.answer there (answers _ _ (.unopened arrives failed))
  | opened => exact vanished

/-- What the attempts are told stays true, if all that is new is true. -/
theorem Did.fits (did : s.Did cfg act s') (tracks : Tracks cfg s) (fits : s.Fits fact)
    (wider : ∀ event, fact event → fact' event)
    (own : ∀ i env ready c next, act = .call i env ready → s.wire.upcoming i = some ⟨c,next⟩ →
      fact' (Forwarder.answered c (ownCall cfg env ready s.a c).1))
    (lost : ∀ request e, e.code = .unavailable ∨ e.code = .io → fact' (Forwarder.told request (.error e)))
    (answers : ∀ request result, Answers cfg s s' act request result →
      fact' (Forwarder.told request (HttpClient.outcome result))) : s'.Fits fact' := by
  replace fits : s.Fits fact' := Wire.Fits.mono wider fits
  cases did with
  | nothing | served | broken | others | marked | unmarked | removed => exact fits
  | restarted => exact fits.abandon
  | @pushed id => exact fits.start ⟨id,[],nofun,Forwarder.push_follows id⟩
  | called upcoming => exact fits.called upcoming (own _ _ _ _ _ rfl upcoming)
  | sent => exact fits.send
  | heard => exact fits.hear
  | lost network => exact fits.lose fun request => lost request _ network
  | vanished => exact fits.vanish _
  | arrived arrives => exact receive_fits fits arrives answers
  | wrote => exact fits
  | @stuck j env n put e here failed =>
    obtain ⟨p,there⟩ := tracks.pending here
    obtain ⟨_,_,_,size,request,_⟩ := tracks.carries j put p here there
    exact fits.answer request (answers _ _ (.stuck here there failed))
  | @finished j env put here left whole free =>
    obtain ⟨p,there⟩ := tracks.pending here
    obtain ⟨_,_,_,size,request,all⟩ := tracks.carries j put p here there
    rw [whole] at all
    rw [there] at free
    exact fits.answer request (answers _ _ (.finished here there left (of_decide_eq_true all.symm) (by simpa using free) rfl))

end Facts

end Peering
end Confide
