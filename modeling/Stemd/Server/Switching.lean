import Stemd.Queue.Lone
import Stemd.Server.Moves

/-! One switch at a time, and what the switcher says the worker holds.

A request looks whether a switch is running before it starts one, and the switch shows
only once its own thread has recorded it. As long as nobody looks in between, switches
follow one another, and each leaves the switcher naming the worker's model. -/

set_option autoImplicit false

namespace Stemd.Server

open Stemd.Core
open Stemd.Semantics

variable {R Sep : Type}

def Point.switching : Point R Sep → Bool
  | .comparing _ | .fetching _ | .staging _ | .calling _ (.record _) | .recording _ => true
  | .settling _ | .failing _ => true
  | _ => false

/-- Where the switcher's state may not show what a request has begun. -/
def Point.unrecorded : Point R Sep → Bool
  | .comparing _ | .fetching _ | .failing _ => true
  | _ => false

def Point.inFlight : Point R Sep → Bool
  | .comparing _ => false
  | point => point.switching

def AppState.inFlight (server : AppState R Sep) : Nat :=
  server.threads.countP (·.point.inFlight)

def Point.requested : Point R Sep → Option Sep
  | .requesting preset => some preset
  | _ => none

/-- A request looks at the switcher's state only while that state is up to date with the
requests that looked before. -/
def InTurn (server : AppState R Sep) (event : Event R Sep) : Prop :=
  ∀ _preset ∈ server.advancing (fun _ => Point.requested) event,
    server.switch.busy = true ∨ ∀ thread ∈ server.threads, thread.point.unrecorded = false

instance (server : AppState R Sep) (event : Event R Sep) : Decidable (InTurn server event) :=
  inferInstanceAs (Decidable (∀ _preset ∈ _, _))

def Point.Fits (queue : Queue.Inner Nat R Sep) (current : Sep) : Point R Sep → Prop
  | .calling call (.record preset) => call.Fits queue current preset
  | .recording preset => queue.Steady preset
  | _ => queue.Steady current

def Point.Apart : Point R Sep → Prop
  | .calling _ (.record _) => True
  | .calling call _ => call.installs = false
  | _ => True

def AppState.points (server : AppState R Sep) : List (Point R Sep) := server.threads.map (·.point)

structure SwitchesInTurn (server : AppState R Sep) : Prop where
  alone : server.points.countP Point.switching ≤ 1
  shown : ∀ point ∈ server.points, point.switching = true →
    point.unrecorded = true ∨ server.switch.busy = true
  fits : ∀ point ∈ server.points, point.switching = true →
    point.Fits server.queue server.current
  steady : server.points.countP Point.switching = 0 → server.queue.Steady server.current
  apart : ∀ point ∈ server.points, point.Apart

theorem Point.Fits.spared {before after : Queue.Inner Nat R Sep} {current : Sep}
    {point : Point R Sep} (fits : point.Fits before current) (spares : before.Spares after) :
    point.Fits after current := by
  cases point with
  | calling call resume =>
      cases resume with
      | record preset => exact Queue.Call.Fits.spared fits spares
      | _ => exact spares.steady _ fits
  | _ => exact spares.steady _ fits

theorem switching_of_inFlight {point : Point R Sep} (inFlight : point.inFlight = true) :
    point.switching = true := by
  cases point <;> first | exact inFlight | cases inFlight

theorem fits_of_not_inFlight {queue : Queue.Inner Nat R Sep} {current : Sep} {point : Point R Sep}
    (fits : point.Fits queue current) (switching : point.switching = true)
    (grounded : point.inFlight = false) : queue.Steady current := by
  cases point with
  | comparing preset => exact fits
  | _ => cases grounded.symm.trans switching

theorem modify_points (threads : List (Thread R Sep)) (index : Nat) :
    (threads.modify index fun t => { t with letGo := true }).map (·.point) =
      threads.map (·.point) := by
  refine List.ext_getElem? fun place => ?_
  rw [List.getElem?_map, List.getElem?_modify, List.getElem?_map]
  cases threads[place]? with
  | none => rfl
  | some thread =>
      by_cases same : index = place <;> simp [same]

theorem Acts.points {setting : Setting R Sep} {server after : AppState R Sep}
    {thread next : Thread R Sep} {choice : Choice}
    (acts : Acts setting server thread choice after next) : after.points = server.points := by
  cases acts with
  | released job client here => exact modify_points server.threads client
  | _ => rfl

theorem Works.spares {server after : AppState R Sep} {event : WorkerEvent}
    (works : Works server event after) : server.queue.Spares after.queue ∧
      after.current = server.current ∧ after.switch = server.switch := by
  have served : ∀ {action : Queue.Action Nat R Sep} {queue : Queue.Inner Nat R Sep},
      server.queue.step action = some queue → action.isCallers = false →
        server.queue.Spares queue := fun done own =>
    (Queue.Inner.serves_of_step own done).spares
  cases works with
  | next done | built done | answered done | cleared _ done => exact ⟨served done rfl, rfl, rfl⟩
  | _ => exact ⟨.refl _, rfl, rfl⟩

theorem Passes.aside {server : AppState R Sep} {point next : Point R Sep}
    (passes : Passes server point next) (outside : point.switching = false) :
    next.Apart ∧ (next.switching = false ∨ server.switch.busy = false ∧
      (∃ preset, point.requested = some preset) ∧ ∃ preset, next = .comparing preset) := by
  cases passes with
  | free preset free => exact ⟨trivial, .inr ⟨free, ⟨preset, rfl⟩, preset, rfl⟩⟩
  | loaded preset | wanted preset | missing preset | broken preset => cases outside
  | _ => exact ⟨trivial, .inl rfl⟩

theorem Switches.switching {server : AppState R Sep} {point next : Point R Sep} {current : Sep}
    {switch : SwitchState Sep} (switches : Switches server point next current switch) :
    point.switching = true := by
  cases switches <;> rfl

theorem Resumes.apart {call calling : Queue.Call Nat Sep} {after : Resume Sep}
    {point : Point R Sep} (resumes : Resumes call after point) (other : call.installs = false)
    (outside : (Point.calling calling after : Point R Sep).switching = false) :
    point.Apart ∧ point.switching = false := by
  cases resumes with
  | calling _ => cases after <;> first | exact ⟨other, rfl⟩ | cases outside
  | recording _ | failing _ => cases outside
  | removing _ | ended => exact ⟨trivial, rfl⟩

theorem Acts.aside {setting : Setting R Sep} {server after : AppState R Sep}
    {thread next : Thread R Sep} {choice : Choice}
    (acts : Acts setting server thread choice after next)
    (outside : thread.point.switching = false) (apart : thread.point.Apart) :
    after.current = server.current ∧ after.switch = server.switch ∧
      server.queue.Spares after.queue ∧ next.point.Apart ∧
        (next.point.switching = false ∨ server.switch.busy = false ∧
          (∃ preset, thread.point.requested = some preset) ∧
            ∃ preset, next.point = .comparing preset) := by
  cases acts with
  | passed passes =>
      obtain ⟨apart, rest⟩ := passes.aside outside
      exact ⟨rfl, rfl, .refl _, apart, rest⟩
  | switched current switch switches => cases outside.symm.trans switches.switching
  | identified via _ _ | joined via _ _ _ _ _ | claimed via _ _ _ _ =>
      cases via <;> exact ⟨rfl, rfl, .refl _, trivial, .inl rfl⟩
  | submitted via request job position queue here accepted =>
      have spares : server.queue.Spares queue :=
        (Queue.Inner.serves_of_step rfl (Queue.Inner.step_submit accepted)).spares
      cases via <;> exact ⟨rfl, rfl, spares, trivial, .inl rfl⟩
  | released job client here =>
      refine ⟨rfl, rfl, .refl _, ?_⟩
      dsimp only
      split
      · exact ⟨trivial, .inl rfl⟩
      · exact ⟨rfl, .inl rfl⟩
  | called late call moved resume queue here advanced =>
      rw [here] at outside apart
      have other : call.installs = false := by
        cases resume with
        | record preset => cases outside
        | remove job | exit => exact apart
      have resumed : (AppState.resume moved resume : Point R Sep).Apart ∧ _ :=
        (AppState.resumes moved resume).apart
          ((Queue.Call.advance_installs advanced).trans other) outside
      exact ⟨rfl, rfl, Queue.Call.advance_spares other advanced, resumed.1, .inl resumed.2⟩
  | _ => exact ⟨rfl, rfl, .refl _, trivial, .inl rfl⟩

structure Carried (server : AppState R Sep) (next : Point R Sep) : Prop where
  apart : next.Apart
  fits : next.switching = true → next.Fits server.queue server.current
  shown : next.switching = true → next.unrecorded = true ∨ server.switch.busy = true
  steady : next.switching = false → server.queue.Steady server.current

theorem Passes.carried {server : AppState R Sep} {point next : Point R Sep}
    (passes : Passes server point next) (inside : point.switching = true)
    (fits : point.Fits server.queue server.current) : Carried server next := by
  cases passes with
  | loaded preset =>
      exact ⟨trivial, fun goes => (by cases goes), fun goes => (by cases goes), fun _ => fits⟩
  | wanted preset | missing preset | broken preset =>
      exact ⟨trivial, fun _ => fits, fun _ => .inl rfl, fun free => by cases free⟩
  | _ => cases inside

theorem Switches.carried {server : AppState R Sep} {point next : Point R Sep} {current : Sep}
    {switch : SwitchState Sep} (switches : Switches server point next current switch)
    (fits : point.Fits server.queue server.current)
    (shown : point.unrecorded = true ∨ server.switch.busy = true) :
    Carried { server with current := current, switch := switch } next := by
  cases switches with
  | verifying preset | downloading preset =>
      exact ⟨trivial, fun _ => fits, fun _ => .inr rfl, fun free => by cases free⟩
  | loading preset =>
      exact ⟨trivial, fun _ => ⟨rfl, fits⟩, fun _ => .inr rfl, fun free => by cases free⟩
  | recorded preset =>
      refine ⟨trivial, fun _ => fits, fun _ => .inr ?_, fun free => by cases free⟩
      rcases shown with unrecorded | busy
      · cases unrecorded
      · exact busy
  | settled preset | failed preset =>
      exact ⟨trivial, fun goes => (by cases goes), fun goes => (by cases goes), fun _ => fits⟩

theorem carried_call {server : AppState R Sep} {queue : Queue.Inner Nat R Sep} {late : Bool}
    {call next : Queue.Call Nat Sep} {preset : Sep}
    (fits : call.Fits server.queue server.current preset)
    (advanced : call.advance late server.queue = some (queue, next))
    (busy : server.switch.busy = true) :
    Carried { server with queue := queue } (AppState.resume next (.record preset)) := by
  have after := fits.advance advanced
  cases next with
  | installReturned reply =>
      cases reply with
      | loaded model =>
          exact ⟨trivial, fun _ => after, fun _ => .inr busy, fun free => by cases free⟩
      | _ => exact ⟨trivial, fun _ => after, fun _ => .inl rfl, fun free => by cases free⟩
  | _ => exact ⟨trivial, fun _ => after, fun _ => .inr busy, fun free => by cases free⟩

theorem Acts.carried {setting : Setting R Sep} {server after : AppState R Sep}
    {thread next : Thread R Sep} {choice : Choice}
    (acts : Acts setting server thread choice after next)
    (inside : thread.point.switching = true)
    (fits : thread.point.Fits server.queue server.current)
    (shown : thread.point.unrecorded = true ∨ server.switch.busy = true) :
    Carried after next.point := by
  cases acts with
  | passed passes => exact passes.carried inside fits
  | switched current switch switches => exact switches.carried fits shown
  | called late call moved resume queue here advanced =>
      rw [here] at inside fits shown
      cases resume with
      | record preset =>
          rcases shown with unrecorded | busy
          · cases unrecorded
          · exact carried_call fits advanced busy
      | remove job | exit => cases inside
  | identified _ _ here | joined _ _ _ _ here _ | claimed _ _ _ here _ | answered _ _ _ here _
  | missed _ _ here _ | rejected _ _ _ here | abandoned _ _ here _
  | submitted _ _ _ _ _ here _ | refused _ _ _ here _ | droppedRefused _ _ _ here _
  | joinedAgain _ here | found _ _ here _ | released _ _ here | removed _ here =>
      rw [here] at inside
      cases inside

theorem SwitchesInTurn.spared {server after : AppState R Sep} (inTurn : SwitchesInTurn server)
    (points : after.points = server.points) (current : after.current = server.current)
    (switch : after.switch = server.switch) (spares : server.queue.Spares after.queue) :
    SwitchesInTurn after where
  alone := points ▸ inTurn.alone
  shown := by
    rw [points, switch]
    exact inTurn.shown
  fits := by
    rw [points, current]
    exact fun point member switching => (inTurn.fits point member switching).spared spares
  steady := by
    rw [points, current]
    exact fun nobody => spares.steady _ (inTurn.steady nobody)
  apart := points ▸ inTurn.apart

theorem SwitchesInTurn.carry {server moved after : AppState R Sep} {index : Nat}
    {point next : Point R Sep} (inTurn : SwitchesInTurn server)
    (here : server.points[index]? = some point) (inside : point.switching = true)
    (points : after.points = server.points.set index next) (carried : Carried moved next)
    (same : after.queue = moved.queue ∧ after.current = moved.current ∧
      after.switch = moved.switch) : SwitchesInTurn after := by
  have counted := countP_set_add Point.switching next here
  have alone := inTurn.alone
  rw [if_pos inside] at counted
  -- Nobody else is switching, so whoever is now is the one that went on.
  have mine : ∀ other ∈ after.points, other.switching = true → other = next := by
    intro other member switching
    rw [points] at member
    obtain ⟨place, there⟩ := List.getElem?_of_mem member
    rcases Queue.getElem?_set_eq_some there with ⟨-, own⟩ | ⟨apart, old⟩
    · exact own
    · have two := Queue.two_le_countP old here apart switching inside
      omega
  obtain ⟨queue, current, switch⟩ := same
  refine ⟨?_, ?_, ?_, ?_, ?_⟩
  · rw [points]
    split at counted <;> omega
  · intro other member switching
    cases mine other member switching
    exact switch ▸ carried.shown switching
  · intro other member switching
    cases mine other member switching
    exact queue ▸ current ▸ carried.fits switching
  · intro nobody
    rw [queue, current]
    refine carried.steady ?_
    rw [points] at nobody
    cases switching : next.switching with
    | false => rfl
    | true =>
        rw [switching, if_pos rfl] at counted
        have somebody : 0 < server.points.countP Point.switching :=
          List.countP_pos_iff.mpr ⟨point, List.mem_of_getElem? here, inside⟩
        omega
  · intro other member
    rcases List.mem_or_eq_of_mem_set (points ▸ member) with old | rfl
    · exact inTurn.apart other old
    · exact carried.apart

theorem SwitchesInTurn.begin {server after : AppState R Sep} {index : Nat} {preset : Sep}
    (inTurn : SwitchesInTurn server)
    (inside : index < server.points.length)
    (points : after.points = server.points.set index (.comparing preset))
    (current : after.current = server.current) (spares : server.queue.Spares after.queue)
    (nobody : ∀ point ∈ server.points, point.switching = false) : SwitchesInTurn after := by
  have here := List.getElem?_eq_getElem inside
  have none : server.points.countP Point.switching = 0 :=
    List.countP_eq_zero.mpr fun point member => by simp [nobody point member]
  have steady := spares.steady _ (inTurn.steady none)
  have counted := countP_set_add Point.switching (Point.comparing preset) here
  have begun : (Point.comparing preset : Point R Sep).switching = true := rfl
  rw [if_neg (by simp [nobody _ (List.getElem_mem inside)]), if_pos begun, none, ← points] at counted
  have mine : ∀ other ∈ after.points, other.switching = true → other = .comparing preset := by
    intro other member switching
    rcases List.mem_or_eq_of_mem_set (points ▸ member) with old | own
    · cases (nobody other old).symm.trans switching
    · exact own
  refine ⟨by omega, ?_, ?_, fun gone => by omega, ?_⟩
  · intro other member switching
    cases mine other member switching
    exact .inl rfl
  · intro other member switching
    cases mine other member switching
    exact current ▸ steady
  · intro other member
    rcases List.mem_or_eq_of_mem_set (points ▸ member) with old | rfl
    · exact inTurn.apart other old
    · trivial

theorem SwitchesInTurn.pass {server after : AppState R Sep} {index : Nat} {point next : Point R Sep}
    (inTurn : SwitchesInTurn server) (here : server.points[index]? = some point)
    (outside : point.switching = false) (outside' : next.switching = false) (apart : next.Apart)
    (points : after.points = server.points.set index next)
    (current : after.current = server.current) (switch : after.switch = server.switch)
    (spares : server.queue.Spares after.queue) : SwitchesInTurn after := by
  have counted := countP_set_add Point.switching next here
  simp only [outside, outside', Bool.false_eq_true, if_false, Nat.add_zero, ← points] at counted
  have kept : ∀ other ∈ after.points, other.switching = true → other ∈ server.points := by
    intro other member switching
    rcases List.mem_or_eq_of_mem_set (points ▸ member) with old | rfl
    · exact old
    · cases outside'.symm.trans switching
  refine ⟨counted ▸ inTurn.alone, ?_, ?_, ?_, ?_⟩
  · intro other member switching
    exact switch ▸ inTurn.shown other (kept other member switching) switching
  · intro other member switching
    exact current ▸ (inTurn.fits other (kept other member switching) switching).spared spares
  · intro nobody
    exact current ▸ spares.steady _ (inTurn.steady (counted ▸ nobody))
  · intro other member
    rcases List.mem_or_eq_of_mem_set (points ▸ member) with old | rfl
    · exact inTurn.apart other old
    · exact apart

theorem SwitchesInTurn.enter {server : AppState R Sep} {event : Event R Sep} {point : Point R Sep}
    (inTurn : SwitchesInTurn server) (enters : Enters event point) :
    SwitchesInTurn (server.spawn point) := by
  have outside : point.switching = false ∧ point.Apart := by
    cases enters <;> exact ⟨rfl, by first | rfl | trivial⟩
  have points : (server.spawn point).points = server.points ++ [point] := by
    simp [AppState.points, AppState.spawn]
  have kept : ∀ other ∈ (server.spawn point).points, other.switching = true →
      other ∈ server.points := by
    intro other member switching
    rcases List.mem_append.mp (points ▸ member) with old | new
    · exact old
    · cases List.mem_singleton.mp new
      cases outside.1.symm.trans switching
  have counted : (server.spawn point).points.countP Point.switching =
      server.points.countP Point.switching := by
    simp [points, outside.1]
  refine ⟨counted ▸ inTurn.alone, ?_, ?_, fun nobody => inTurn.steady (counted ▸ nobody), ?_⟩
  · exact fun other member switching => inTurn.shown other (kept other member switching) switching
  · exact fun other member switching => inTurn.fits other (kept other member switching) switching
  · intro other member
    rcases List.mem_append.mp (points ▸ member) with old | new
    · exact inTurn.apart other old
    · exact List.mem_singleton.mp new ▸ outside.2

theorem SwitchesInTurn.move {setting : Setting R Sep} {server after : AppState R Sep}
    {event : Event R Sep} (turns : SwitchesInTurn server) (inTurn : InTurn server event)
    (move : Move setting server event after) : SwitchesInTurn after := by
  cases move with
  | entered enters => exact turns.enter enters
  | @thread index choice thread next moved here acts =>
      have there : server.points[index]? = some thread.point := by
        simp [AppState.points, here]
      have points : AppState.points { moved with threads := moved.threads.set index next } =
          server.points.set index next.point := by
        rw [← acts.points]
        simp [AppState.points, List.map_set]
      have member := List.mem_of_getElem? there
      cases inside : thread.point.switching with
      | true =>
          exact turns.carry there inside points (acts.carried inside (turns.fits _ member inside)
            (turns.shown _ member inside)) ⟨rfl, rfl, rfl⟩
      | false =>
          obtain ⟨current, switch, spares, apart, outside | ⟨free, ⟨_, requested⟩, _, begins⟩⟩ :=
            acts.aside inside (turns.apart _ member)
          · exact turns.pass there inside outside apart points current switch spares
          · rw [begins] at points
            refine turns.begin (List.getElem?_eq_some_iff.mp there).1 points current spares ?_
            -- Not busy, and nothing begun unrecorded: nothing is begun.
            have recorded := inTurn _ (advancing_eq_some.mpr ⟨_, _, _, rfl, here, requested⟩)
            intro point inside
            cases switching : point.switching with
            | false => rfl
            | true =>
                rcases recorded with busy | recorded
                · cases free.symm.trans busy
                · obtain ⟨other, inside', rfl⟩ := List.mem_map.mp inside
                  rcases turns.shown _ inside switching with unrecorded | busy
                  · cases (recorded other inside').symm.trans unrecorded
                  · cases free.symm.trans busy
  | worker works =>
      obtain ⟨spares, current, switch⟩ := works.spares
      exact turns.spared (congrArg (List.map _) works.threads) current switch spares
  | evicted key => exact turns.spared rfl rfl rfl (.refl _)
  | pruned => exact turns.spared rfl rfl rfl (.refl _)
  | ticked => exact turns.spared rfl rfl rfl (.refl _)

variable [DecidableEq Sep]

/-- While requests look in turn there is one switch at a time, and between switches the
switcher names the model the worker holds. -/
theorem switcher_agrees (setting : Setting R Sep) (model : Sep) (maxDepth retainFailed : Nat)
    (server : AppState R Sep)
    (run : (AppState.system setting model maxDepth retainFailed).Reaches InTurn
      (.start model maxDepth retainFailed) server) :
    server.inFlight ≤ 1 ∧ (server.inFlight = 0 → server.current = server.queue.separator) := by
  have turns : SwitchesInTurn server :=
    run.invariant ⟨Nat.zero_le 1, fun _ member => (by cases member), fun _ member => (by cases member),
        fun _ => ⟨rfl, rfl, rfl⟩, fun _ member => by cases member⟩
      fun _ _ _ _ turns inTurn done => turns.move inTurn (move_of_step done)
  have counted : server.inFlight = server.points.countP Point.inFlight := by
    simp [AppState.inFlight, AppState.points, List.countP_map, Function.comp_def]
  have fewer : server.points.countP Point.inFlight ≤ server.points.countP Point.switching :=
    List.countP_mono_left fun _ _ => switching_of_inFlight
  refine ⟨counted ▸ fewer.trans turns.alone, fun grounded => ?_⟩
  rw [counted, List.countP_eq_zero] at grounded
  by_cases nobody : server.points.countP Point.switching = 0
  · exact (turns.steady nobody).separator.symm
  · obtain ⟨point, member, switching⟩ := List.countP_pos_iff.mp (Nat.pos_of_ne_zero nobody)
    exact (fits_of_not_inFlight (turns.fits point member switching) switching
      (by simpa using grounded point member)).separator.symm

def adoption : List (Event Unit String) :=
  [.worker .next, .worker (.built .loaded), .worker .answered]

/-- Two switches, the second requested once the first is under way and again when it is over. -/
theorem switches_in_turn_agree :
    ∃ server : AppState Unit String, server.current = "mdx" ∧ server.queue.separator = "mdx" ∧
      server.inFlight ≤ 1 ∧ (server.inFlight = 0 → server.current = server.queue.separator) := by
  have switched : ∃ server : AppState Unit String,
      (AppState.system trackSetting "htdemucs" 4 60).Reaches InTurn
        (.start "htdemucs" 4 60) server ∧
          server.current = "mdx" ∧ server.queue.separator = "mdx" :=
    System.exists_of_replay
      (.request "hybrid" :: List.replicate 7 (.advance 0 .plain) ++
        [.request "mdx", .advance 1 .plain] ++ adoption ++ List.replicate 3 (.advance 0 .plain) ++
          .request "mdx" :: List.replicate 7 (.advance 2 .plain) ++ adoption ++
            List.replicate 3 (.advance 2 .plain)) (by decide)
  obtain ⟨server, run, current, separator⟩ := switched
  exact ⟨server, current, separator, switcher_agrees trackSetting "htdemucs" 4 60 server run⟩

/-- Two requests that look before either switch is recorded both switch, and the one that
was answered first records last. -/
theorem two_requests_both_switch :
    (∃ server : AppState Unit String,
      (AppState.system trackSetting "htdemucs" 4 60).Reachable server ∧ server.inFlight = 2) ∧
      ∃ server : AppState Unit String,
        (AppState.system trackSetting "htdemucs" 4 60).Reachable server ∧
          server.inFlight = 0 ∧ server.current = "hybrid" ∧ server.queue.separator = "mdx" :=
  ⟨System.exists_of_replay
      [.request "hybrid", .request "mdx", .advance 0 .plain, .advance 1 .plain, .advance 0 .plain,
        .advance 1 .plain] (by decide),
    System.exists_of_replay
      ([.request "hybrid", .request "mdx", .advance 0 .plain, .advance 1 .plain] ++
        List.replicate 6 (.advance 0 .plain) ++ adoption ++ .advance 0 .plain ::
          List.replicate 6 (.advance 1 .plain) ++ adoption ++ List.replicate 3 (.advance 1 .plain) ++
            List.replicate 2 (.advance 0 .plain)) (by decide)⟩

end Stemd.Server
