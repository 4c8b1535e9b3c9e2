import SmartSocks.Sslocal.SelectorRuns

/-!
# Teardown

When one side of a pair ends or fails, its tunnel is disposed of, and this
should close both channels. It never does: `Socks5Tunnel` overrides `dispose`
and `onDispose` without the calls that would close its channel and reach its
brother, and the channel of a local tunnel is external. A thread that runs has
every accepted channel open.
-/

namespace SmartSocks.Sslocal

open Jvm Crypto Tunnel SelectorThread

variable {β σ : Type}

/-- The handler finds that its side of the pair has ended or failed, or that a
write does. -/
def ObservesFailure (t : Tunnels β σ) (calls : Calls) (id : TunnelId) : Op → Prop
  | .opRead =>
    match calls.read with
    | .bytes chunk => t.isTunnelEstablished id = true ∧ 0 < passedOn t id chunk ∧
      (accepted calls.writes (passedOn t id chunk)).2 = true
    | .endOfStream => True
    | .ioException => True
  | .opWrite => (accepted calls.writes t.mWriteRemainingBuffer.remaining).2 = true
  | .opConnect => calls.finishConnect ≠ some true

instance (t : Tunnels β σ) (calls : Calls) (id : TunnelId) :
    (ops : Op) → Decidable (ObservesFailure t calls id ops)
  | .opRead => by
    dsimp only [ObservesFailure]
    rcases calls.read with _ | _ | _ <;> infer_instance
  | .opWrite => inferInstanceAs (Decidable (_ = true))
  | .opConnect => inferInstanceAs (Decidable (_ ≠ _))

section
variable [Inhabited β] (C : StreamCipher β σ) (own : Nat → Byte → β)

/-- Both channels of the pair are closed, and nothing uses them any more. -/
structure TornDown (s : SelectorThread β σ) (pair : Nat) : Prop where
  closed : ∀ id, id.pair = pair → (s.tunnels.mSocketChannel id).isOpen = false
  unregistered : ∀ id, id.pair = pair → isValid s.tunnels id = false
  silent : ∀ rounds t, Machine.run (step C own) s rounds = some t → ∀ id, id.pair = pair →
    (t.tunnels.mSocketChannel id).received = (s.tunnels.mSocketChannel id).received ∧
    (t.tunnels.mSocketChannel id).sent = (s.tunnels.mSocketChannel id).sent

variable {C own} {s : SelectorThread β σ} {rounds : List Round}

/-- No channel of a client is ever closed. -/
theorem local_open (hrun : Machine.run (step C own) initial rounds = some s)
    (hrunning : s.stopped = none) (pair : Nat) :
    (s.tunnels.mSocketChannel ⟨pair, .roleLocal⟩).isOpen = true :=
  ((steady_run hrun hrunning).wired.channel ⟨pair, .roleLocal⟩).isOpen (.inl rfl)

/-- A channel to the server is closed only by the connect that fails. -/
theorem remote_open (hrun : Machine.run (step C own) initial rounds = some s)
    (hrunning : s.stopped = none) {pair : Nat} (hgreeted : s.tunnels.greeted pair = true) :
    (s.tunnels.mSocketChannel ⟨pair, .roleRemote⟩).isOpen = true :=
  ((steady_run hrun hrunning).wired.channel ⟨pair, .roleRemote⟩).isOpen (.inr hgreeted)

/-- A handler for reading or writing leaves the handshake made. -/
theorem greeted_handle {t : SelectorThread β σ} {id : TunnelId} {readyOps : Op} {keys : List Selected}
    {calls : Calls} (hs : Steady s) (hkeys : s.selectedKeys = .tunnel id readyOps :: keys)
    (hvalid : isValid s.tunnels id = true) (hops : readyOps ≠ .opConnect)
    (hstep : step C own s (.handle calls) = some t) (hreturns : t.stopped = none) :
    t.tunnels.greeted id.pair = true := by
  have hgreeted : s.tunnels.greeted id.pair = true := by
    have hconnect := (hs.selected id readyOps (hkeys ▸ List.mem_cons_self ..)).connect
    simpa using mt hconnect.mpr hops
  cases step_cases hs hstep with
  | skipped id' ops' keys' hkeys' hinvalid =>
    cases hkeys.symm.trans hkeys'
    cases hvalid.symm.trans hinvalid
  | readable id' keys' hkeys' hvalid' hc calls h =>
    cases hkeys.symm.trans hkeys'
    obtain rfl := (finish_stopped ..).mp hreturns
    exact ((h.keeps hc).greeted id.pair).trans hgreeted
  | writable id' keys' hkeys' hvalid' hc calls h =>
    cases hkeys.symm.trans hkeys'
    obtain rfl := (finish_stopped ..).mp hreturns
    exact ((h.keeps hc).greeted id.pair).trans hgreeted
  | connectable id' keys' hkeys' =>
    cases hkeys.symm.trans hkeys'
    exact absurd rfl hops

end

/-- No handler that observes a failure tears its pair down: it leaves the
client's channel open, and the server's unless that did not connect. -/
theorem never_torn_down [Inhabited β] (C : StreamCipher β σ) (own : Nat → Byte → β)
    (rounds : List Round) (s t : SelectorThread β σ) (id : TunnelId) (readyOps : Op)
    (keys : List Selected) (calls : Calls)
    (hrun : Machine.run (step C own) initial rounds = some s)
    (hkeys : s.selectedKeys = .tunnel id readyOps :: keys) (hvalid : isValid s.tunnels id = true)
    (_hfailure : ObservesFailure s.tunnels calls id readyOps)
    (hstep : step C own s (.handle calls) = some t) (hreturns : t.stopped = none) :
    ¬ TornDown C own t id.pair ∧ (t.tunnels.mSocketChannel ⟨id.pair, .roleLocal⟩).isOpen = true ∧
      (readyOps ≠ .opConnect → (t.tunnels.mSocketChannel ⟨id.pair, .roleRemote⟩).isOpen = true) := by
  have hlast : Machine.run (step C own) initial (rounds ++ [.handle calls]) = some t :=
    Machine.run_append.mpr ⟨s, hrun, Machine.run_cons.mpr ⟨t, hstep, rfl⟩⟩
  have hopen := local_open hlast hreturns id.pair
  refine ⟨fun hdown => ?_, hopen, fun hops => ?_⟩
  · rw [hdown.closed ⟨id.pair, .roleLocal⟩ rfl] at hopen
    cases hopen
  · have hs := steady_run hrun (running_of_step hstep)
    exact remote_open hlast hreturns (greeted_handle hs hkeys hvalid hops hstep hreturns)

/-- The server's channel is ready for reading. -/
def readableRounds : List Round := connectRounds 0 ++ [.select [.tunnel ⟨0, .roleRemote⟩ .opRead]]

/-- It has ended its stream. -/
def endedCalls : Calls := { sampleCalls nothing [] with read := .endOfStream }

theorem endedRounds_not_torn_down :
    ¬ TornDown feedback (fun _ => id)
      (after feedback (fun _ => id) (readableRounds ++ [.handle endedCalls])) 0 := by
  have hrun := run_after feedback (fun _ => id) (readableRounds ++ [.handle endedCalls])
    (by decide +kernel)
  have hbefore := run_after feedback (fun _ => id) readableRounds (by decide +kernel)
  obtain ⟨s, hs, hlast⟩ := Machine.run_append.mp hrun
  cases hbefore.symm.trans hs
  obtain ⟨t, hstep, ht⟩ := Machine.run_cons.mp hlast
  cases ht
  exact (never_torn_down feedback (fun _ => id) readableRounds _ _ ⟨0, .roleRemote⟩ .opRead [] endedCalls
    hbefore (by decide +kernel) (by decide +kernel) (by decide +kernel) hstep (by decide +kernel)).1

/-- Behind the end of the server's stream both keys are live, and what the client
sends is still read and written. -/
theorem ended_stream_ignored :
    ((Machine.run (step feedback fun _ => id) initial
        (readableRounds ++ [.handle endedCalls])).map fun s =>
      (isValid s.tunnels ⟨0, .roleLocal⟩, isValid s.tunnels ⟨0, .roleRemote⟩,
        (s.tunnels.mSocketChannel ⟨0, .roleLocal⟩).isOpen,
        (s.tunnels.mSocketChannel ⟨0, .roleRemote⟩).isOpen,
        (s.tunnels.mSocketChannel ⟨0, .roleLocal⟩).received)) =
      some (true, true, true, true, []) ∧
    ((Machine.run (step feedback fun _ => id) initial (readableRounds ++ [.handle endedCalls] ++
        [.select [.tunnel ⟨0, .roleLocal⟩ .opRead], .handle (sampleCalls ⟨[0x01], by decide⟩ [1])])).map
      fun s => (s.tunnels.mSocketChannel ⟨0, .roleLocal⟩).received) = some [0x01] := by
  decide +kernel

end SmartSocks.Sslocal
