import SmartSocks.Library.Machine
import Mathlib.Logic.Function.Basic

/-!
# The pipe that stops the server

`g_pipe_fd` is static: it is zero before the first start, every start overwrites it,
and it keeps its numbers when they are closed. A stop writes to whatever the second
number stands for in the process by then.
-/

namespace SmartSocks.Ssserver

/-- The threads in `ss_server_main`, in the order of their start. -/
abbrev ServerThread := Nat

/-- What a descriptor of the process stands for. -/
inductive Holder
  | other
  | readEnd (thread : ServerThread)
  | writeEnd (thread : ServerThread)
  deriving DecidableEq, Repr

/-- How far a thread has come. -/
inductive Progress
  | starting
  | running
  | unlooped
  | closing
  | closed
  | returned
  deriving DecidableEq, Repr

/-- Past `pipe`, and not yet past the second `close`. -/
def Progress.HasPipe (progress : Progress) : Prop :=
  progress = .running ∨ progress = .unlooped ∨ progress = .closing

instance : DecidablePred Progress.HasPipe := fun _ => inferInstanceAs (Decidable (_ ∨ _))

structure ServerProcess where
  fds : Nat → Option Holder
  g_pipe_fd : Nat × Nat := (0, 0)
  threads : List Progress := []
  /-- By the `SSProxyServer`. -/
  mServerThread : Nat → Option ServerThread := fun _ => none
  /-- The threads that calls of `stop` wait for. -/
  joining : List ServerThread := []

/-- The calls, the progress of the threads, and what the rest of the process does with
descriptors. `pipe` fails, or returns two numbers. -/
inductive ServerEvent
  | start (server : Nat)
  | stop (server : Nat)
  | joined (thread : ServerThread)
  | pipe (thread : ServerThread) (result : Option (Nat × Nat))
  | unloop (thread : ServerThread)
  | closeRead (thread : ServerThread)
  | closeWrite (thread : ServerThread)
  | returns (thread : ServerThread)
  | opens (fd : Nat)
  | closes (fd : Nat)
  deriving DecidableEq, Repr

def ServerEvent.isStop : ServerEvent → Bool
  | .stop _ => true
  | _ => false

namespace ServerProcess

/-- A process in which no server has been started. -/
def before (opened : Nat → Bool) : ServerProcess :=
  { fds := fun fd => if opened fd then some .other else none }

def close (fd : Nat) (s : ServerProcess) : ServerProcess :=
  { s with fds := Function.update s.fds fd none }

def advance (thread : ServerThread) (source target : Progress) (s : ServerProcess) : Option ServerProcess :=
  if s.threads[thread]? = some source then some { s with threads := s.threads.set thread target } else none

/-- The result is not looked at: `g_pipe_fd` keeps its numbers if there is none. -/
def pipe (thread : ServerThread) (result : Option (Nat × Nat)) (s : ServerProcess) : Option ServerProcess :=
  match result with
  | none => some s
  | some (readFd, writeFd) =>
    if s.fds readFd = none ∧ s.fds writeFd = none ∧ readFd ≠ writeFd then
      some { s with
        fds := Function.update (Function.update s.fds readFd (some (.readEnd thread))) writeFd
          (some (.writeEnd thread))
        g_pipe_fd := (readFd, writeFd) }
    else none

def start (server : Nat) (s : ServerProcess) : ServerProcess :=
  { s with
    threads := s.threads ++ [.starting]
    mServerThread := Function.update s.mServerThread server (some s.threads.length) }

/-- `ss_server_stop`, then `mServerThread!!.join()`, which throws if there is no thread. -/
def stop (server : Nat) (s : ServerProcess) : ServerProcess :=
  { s with joining := s.joining ++ (s.mServerThread server).toList }

/-- A loop may be left for a byte in the pipe or for a signal. Both calls of `close`
take the numbers that `g_pipe_fd` has by then. -/
def step (s : ServerProcess) : ServerEvent → Option ServerProcess
  | .start server => some (s.start server)
  | .stop server => some (s.stop server)
  | .joined thread =>
    if thread ∈ s.joining ∧ s.threads[thread]? = some .returned then
      some { s with joining := s.joining.erase thread }
    else none
  | .pipe thread result => (s.advance thread .starting .running).bind (pipe thread result)
  | .unloop thread => s.advance thread .running .unlooped
  | .closeRead thread => (s.advance thread .unlooped .closing).map (close s.g_pipe_fd.1)
  | .closeWrite thread => (s.advance thread .closing .closed).map (close s.g_pipe_fd.2)
  | .returns thread => s.advance thread .closed .returned
  | .opens fd => if s.fds fd = none then some { s with fds := Function.update s.fds fd (some .other) } else none
  | .closes fd => if s.fds fd = some .other then some (s.close fd) else none

def HasPipe (s : ServerProcess) (thread : ServerThread) : Prop :=
  ∃ progress ∈ s.threads[thread]?, Progress.HasPipe progress

instance (s : ServerProcess) : DecidablePred s.HasPipe := fun _ => inferInstanceAs (Decidable (∃ _ ∈ _, _))

/-- `g_pipe_fd[1]` is the write end of a server that has not closed its pipe. -/
def ReachesServer (s : ServerProcess) : Prop :=
  ∃ thread, s.fds s.g_pipe_fd.2 = some (.writeEnd thread) ∧ s.HasPipe thread

instance (s : ServerProcess) : Decidable s.ReachesServer :=
  match h : s.fds s.g_pipe_fd.2 with
  | some (.writeEnd thread) =>
    decidable_of_iff (s.HasPipe thread) (by simp [ReachesServer, h])
  | none | some .other | some (.readEnd _) => .isFalse (by simp [ReachesServer, h])

/-- The byte of a stop goes to such a pipe. -/
def Delivered (s : ServerProcess) (e : ServerEvent) : Prop := e.isStop = true → s.ReachesServer

instance (s : ServerProcess) : DecidablePred s.Delivered := fun _ => inferInstanceAs (Decidable (_ → _))

end ServerProcess

/-- Whether a pipe has been created since `g_pipe_fd[1]` was last closed. -/
def pipeOpen (isOpen : Bool) : ServerEvent → Bool
  | .pipe _ (some _) => true
  | .closeWrite _ => false
  | _ => isOpen

/-- Every stop comes between a `pipe` that succeeds and the next `close` of the write
end, on whatever thread. -/
def StopsWhileOpen (es : List ServerEvent) : Prop :=
  Machine.Guarded (fun isOpen e => some (pipeOpen isOpen e)) (fun isOpen e => e.isStop = true → isOpen = true)
    false es

instance : DecidablePred StopsWhileOpen := fun _ => inferInstanceAs (Decidable (Machine.Guarded ..))

namespace ServerProcess

-- ---------------------------------------------------------------------------
-- Steps
-- ---------------------------------------------------------------------------

/-- What the calls say of the state that they lead to. -/
structure Tracks (isOpen : Bool) (s : ServerProcess) : Prop where
  opened : isOpen = true → s.ReachesServer
  distinct : isOpen = true → s.g_pipe_fd.1 ≠ s.g_pipe_fd.2
  stale : isOpen = false → ∀ thread, s.fds s.g_pipe_fd.2 ≠ some (.writeEnd thread)

section
variable {isOpen : Bool} {s t : ServerProcess} {e : ServerEvent}

theorem tracks_before (opened : Nat → Bool) : Tracks false (before opened) where
  opened := nofun
  distinct := nofun
  stale _ thread := by
    change (if opened 0 then some Holder.other else none) ≠ some (.writeEnd thread)
    split <;> simp

theorem Tracks.reachesServer_iff (h : Tracks isOpen s) : s.ReachesServer ↔ isOpen = true := by
  refine ⟨fun hreach => ?_, h.opened⟩
  obtain ⟨thread, hfd, -⟩ := hreach
  cases isOpen with
  | true => rfl
  | false => exact absurd hfd (h.stale rfl thread)

/-- Threads may be started, and those with a pipe may come as far as they keep it. -/
theorem Tracks.mono (h : Tracks isOpen s) (hfd : t.fds s.g_pipe_fd.2 = s.fds s.g_pipe_fd.2)
    (hpipe : t.g_pipe_fd = s.g_pipe_fd)
    (hthreads : ∀ thread, s.HasPipe thread → t.HasPipe thread) : Tracks isOpen t where
  opened hopen := by
    obtain ⟨thread, hwrite, hhas⟩ := h.opened hopen
    refine ⟨thread, ?_, hthreads thread hhas⟩
    rw [hpipe, hfd, hwrite]
  distinct hopen := by
    rw [hpipe]
    exact h.distinct hopen
  stale hstale thread := by
    rw [hpipe, hfd]
    exact h.stale hstale thread

theorem advance_eq {thread : ServerThread} {source target : Progress} (h : s.advance thread source target = some t) :
    s.threads[thread]? = some source ∧ t = { s with threads := s.threads.set thread target } := by
  unfold advance at h
  split at h
  next hthread => exact ⟨hthread, (Option.some.inj h).symm⟩
  next => cases h

theorem Tracks.advance {thread : ServerThread} {source target : Progress} (h : Tracks isOpen s)
    (hkeep : source.HasPipe → target.HasPipe) (hstep : s.advance thread source target = some t) :
    Tracks isOpen t := by
  obtain ⟨hthread, rfl⟩ := advance_eq hstep
  refine h.mono rfl rfl ?_
  rintro other ⟨progress, hprogress, hhas⟩
  by_cases heq : thread = other
  · subst heq
    cases hthread.symm.trans hprogress
    refine ⟨target, ?_, hkeep hhas⟩
    rw [List.getElem?_set_self (List.getElem?_eq_some_iff.mp hthread).1, Option.mem_some_iff]
  · exact ⟨progress, by rwa [List.getElem?_set_ne heq], hhas⟩

theorem Tracks.start (h : Tracks isOpen s) (server : Nat) : Tracks isOpen (s.start server) := by
  refine h.mono rfl rfl ?_
  rintro thread ⟨progress, hprogress, hhas⟩
  refine ⟨progress, ?_, hhas⟩
  exact (List.getElem?_append_left (List.getElem?_eq_some_iff.mp hprogress).1).trans hprogress

/-- What happens to other numbers, and to the stale one, as long as no pipe is created. -/
theorem Tracks.update {fd : Nat} {holder : Option Holder} (h : Tracks isOpen s)
    (hfd : isOpen = true → fd ≠ s.g_pipe_fd.2) (hholder : ∀ thread, holder ≠ some (.writeEnd thread)) :
    Tracks isOpen { s with fds := Function.update s.fds fd holder } := by
  by_cases hne : fd = s.g_pipe_fd.2
  · cases isOpen with
    | true => exact absurd hne (hfd rfl)
    | false =>
      refine ⟨nofun, nofun, fun _ thread => ?_⟩
      subst hne
      exact (Function.update_self ..).trans_ne (hholder thread)
  · exact h.mono (Function.update_of_ne (Ne.symm hne) ..) rfl fun _ hhas => hhas

/-- A number that no server writes to is not the one of an open pipe. -/
theorem Tracks.ne_writeEnd {fd : Nat} (h : Tracks isOpen s) (hfd : ∀ thread, s.fds fd ≠ some (.writeEnd thread))
    (hopen : isOpen = true) : fd ≠ s.g_pipe_fd.2 := by
  rintro rfl
  obtain ⟨thread, hwrite, -⟩ := h.opened hopen
  exact hfd thread hwrite

theorem Tracks.pipe {thread : ServerThread} {result : Option (Nat × Nat)} (h : Tracks isOpen s)
    (hrunning : s.threads[thread]? = some .running) (hstep : s.pipe thread result = some t) :
    Tracks (pipeOpen isOpen (.pipe thread result)) t := by
  cases result with
  | none =>
    cases hstep
    exact h
  | some result =>
    obtain ⟨readFd, writeFd⟩ := result
    rw [ServerProcess.pipe] at hstep
    split at hstep
    next hfree =>
      cases hstep
      refine ⟨fun _ => ⟨thread, Function.update_self .., ?_⟩, fun _ => hfree.2.2, nofun⟩
      exact ⟨.running, hrunning, .inl rfl⟩
    next => cases hstep

theorem tracks_closeWrite : Tracks false (s.close s.g_pipe_fd.2) :=
  ⟨nofun, nofun, fun _ _ => (Function.update_self ..).trans_ne nofun⟩

theorem Tracks.step (h : Tracks isOpen s) (hstep : s.step e = some t) : Tracks (pipeOpen isOpen e) t := by
  cases e with
  | start server =>
    cases hstep
    exact h.start server
  | stop server =>
    cases hstep
    exact h.mono rfl rfl fun _ hhas => hhas
  | joined thread =>
    rw [ServerProcess.step] at hstep
    split at hstep
    next =>
      cases hstep
      exact h.mono rfl rfl fun _ hhas => hhas
    next => cases hstep
  | pipe thread result =>
    obtain ⟨u, hadvance, hpipe⟩ := Option.bind_eq_some_iff.mp hstep
    obtain ⟨hthread, rfl⟩ := advance_eq hadvance
    refine (h.advance (by decide) hadvance).pipe ?_ hpipe
    exact List.getElem?_set_self (List.getElem?_eq_some_iff.mp hthread).1
  | unloop thread => exact h.advance (by decide) hstep
  | closeRead thread =>
    obtain ⟨u, hadvance, rfl⟩ := Option.map_eq_some_iff.mp hstep
    obtain ⟨-, rfl⟩ := advance_eq hadvance
    exact (h.advance (by decide) hadvance).update h.distinct nofun
  | closeWrite thread =>
    obtain ⟨u, hadvance, rfl⟩ := Option.map_eq_some_iff.mp hstep
    obtain ⟨-, rfl⟩ := advance_eq hadvance
    exact tracks_closeWrite
  | returns thread => exact h.advance (by decide) hstep
  | opens fd =>
    rw [ServerProcess.step] at hstep
    split at hstep
    next hfd =>
      cases hstep
      exact h.update (h.ne_writeEnd (by simp [hfd])) nofun
    next => cases hstep
  | closes fd =>
    rw [ServerProcess.step] at hstep
    split at hstep
    next hfd =>
      cases hstep
      exact h.update (h.ne_writeEnd (by simp [hfd])) nofun
    next => cases hstep

end

-- ---------------------------------------------------------------------------
-- Runs
-- ---------------------------------------------------------------------------

/-- In whatever order the calls, the threads and the rest of the process take turns,
the bytes of all stops reach a server just when all stops come while a pipe is open. -/
theorem stops_delivered_iff (opened : Nat → Bool) {es : List ServerEvent} {s : ServerProcess}
    (hrun : Machine.run step (before opened) es = some s) :
    Machine.Guarded step Delivered (before opened) es ↔ StopsWhileOpen es := by
  refine Machine.guarded_track (J := Tracks) ?_ ?_ (tracks_before opened) hrun
  · intro isOpen s e t h hstep
    exact h.step hstep
  · intro isOpen s e h
    rw [Delivered, h.reachesServer_iff]

/-- The server is started, stopped and joined; it is started again, and stopped while
it runs. -/
def restart : List ServerEvent :=
  [.start 0, .pipe 0 (some (3, 4)), .opens 5, .stop 0, .unloop 0, .closeRead 0, .closeWrite 0, .returns 0,
    .joined 0, .opens 3, .start 0, .pipe 1 (some (4, 6)), .stop 0]

theorem restart_delivered : Machine.Guarded step Delivered (before (· < 3)) restart := by
  have hrun : (Machine.run step (before (· < 3)) restart).isSome = true := by decide
  obtain ⟨s, hs⟩ := Option.isSome_iff_exists.mp hrun
  exact (stops_delivered_iff (· < 3) hs).mpr (by decide)

/-- The second stop comes when the pipe has been closed and a socket of the process has
got its number. -/
def stopTwice : List ServerEvent :=
  [.start 0, .pipe 0 (some (3, 4)), .stop 0, .unloop 0, .closeRead 0, .closeWrite 0, .returns 0, .joined 0,
    .opens 3, .opens 4, .stop 0]

theorem stopTwice_astray : ∃ s, Machine.run step (before (· < 3)) stopTwice = some s ∧
    s.fds s.g_pipe_fd.2 = some .other ∧ ¬ Machine.Guarded step Delivered (before (· < 3)) stopTwice := by
  have hrun : (Machine.run step (before (· < 3)) stopTwice).isSome = true := by decide
  obtain ⟨s, hs⟩ := Option.isSome_iff_exists.mp hrun
  refine ⟨s, hs, ?_, by decide⟩
  cases hs
  rfl

/-- The thread has not come to `pipe` yet: the byte goes to descriptor 0. -/
example : ¬ StopsWhileOpen [.start 0, .stop 0] := by decide

end ServerProcess

end SmartSocks.Ssserver
