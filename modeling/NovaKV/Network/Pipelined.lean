import NovaKV.Lib.Conflicts
import NovaKV.Network.ClientView

open Std
open NovaKV.Lib

namespace NovaKV

/-- The keys whose values decide the reply to a request. -/
def Request.reads : Request → Key → Prop
  | .get key, other => other = key
  | .rscan start_key, other => compare other start_key ≠ .lt
  | _, _ => False

/-- The keys that a request writes. -/
def Request.writes : Request → Key → Prop
  | .set key _, other => other = key
  | .del key, other => other = key
  | _, _ => False

section

variable {first second : ExtTreeMap Key Bytes}

/-- A scan looks at nothing below its start. -/
theorem rscan_congr {start_key : Key}
    (hsame : ∀ key : Key, compare key start_key ≠ .lt → first[key]? = second[key]?) :
    (first.toList.filter fun row => compare row.1 start_key ≠ .lt) =
      second.toList.filter fun row => compare row.1 start_key ≠ .lt := by
  have hfilter : first.filter (fun key _ => compare key start_key ≠ .lt) =
      second.filter fun key _ => compare key start_key ≠ .lt := by
    apply ExtTreeMap.ext_getElem?
    intro key
    rw [ExtTreeMap.getElem?_filter', ExtTreeMap.getElem?_filter']
    by_cases hkey : compare key start_key ≠ .lt
    · rw [hsame key hkey]
    · simp [hkey]
  have hlist := congrArg ExtTreeMap.toList hfilter
  rwa [ExtTreeMap.toList_filter, ExtTreeMap.toList_filter] at hlist

end

/-- The requests as operations on the values of the keys. -/
def requestPrints : Footprints (ExtTreeMap Key Bytes) Key (Option Bytes) Request Reply where
  look map key := map[key]?
  exec asked map := asked.serve map
  reads := Request.reads
  writes := Request.writes
  extensional _ _ hsame := ExtTreeMap.ext_getElem? fun {key} => hsame key
  frame asked map key hnot := by
    cases asked with
    | set other value =>
      have hne : other ≠ key := fun heq => hnot heq.symm
      simp [Request.serve, ExtTreeMap.getElem?_insert, hne]
    | del other =>
      have hne : other ≠ key := fun heq => hnot heq.symm
      simp [Request.serve, ExtTreeMap.getElem?_erase, hne]
    | _ => rfl
  returns asked first second hsame := by
    cases asked with
    | get key => simp only [Request.serve, hsame key rfl]
    | rscan start_key => simp only [Request.serve, rscan_congr hsame]
    | _ => rfl
  written asked first second key hwrites _ := by
    cases asked with
    | set other value =>
      cases hwrites
      simp [Request.serve]
    | del other =>
      cases hwrites
      simp [Request.serve]
    | _ => cases hwrites

/-- The requests parsed on a connection. -/
def asked (log : List Occurrence) (generation : Nat) : List (List Bytes) :=
  (Journals.empty.after (observations log) generation).requests

/-- Only requests of one connection take effect, and each one after those that were
parsed before it there and conflict with it. -/
structure InTurn (log : List Occurrence) (generation : Nat) : Prop where
  alone : ∀ task ∈ effects log, task.generation = generation
  earlier : ∀ before task, before ++ [.effect task] <+: log → ∀ seq < task.seq, ∀ command,
    (asked before generation)[seq]? = some command →
      requestPrints.Conflict (request command) (request task.command) →
        (generation, seq) ∈ (effects before).map WorkerTask.ticket

/-- What a log says when the requests of one connection are executed one after another.
Each response is the reply of an ordered map that has served the requests before it, and
the bytes sent are a front part of these replies, with the reply to a protocol error
behind them. -/
structure Sequential (start : ExtTreeMap Key Bytes) (log : List Occurrence) (generation : Nat) : Prop where
  replied : ∀ before task response, before ++ [.server (.responded task response)] <+: log →
    (serve start (asked log generation)).2[task.seq]?.map Reply.bytes = some response
  sent : (Journals.empty.after (observations log) generation).sent <+:
    ((serve start (asked log generation)).2.map Reply.bytes ++
      if (Journals.empty.after (observations log) generation).failed then [protocol_error_reply] else []).flatten

section

variable {start : ExtTreeMap Key Bytes} {log : List Occurrence} {self : Service} {generation : Nat}
  {commands : List (List Bytes)} {seq : Nat}

/-- The request with a number among commands. -/
def numbered (commands : List (List Bytes)) (seq : Nat) : Request := request (commands.getD seq [])

theorem numbered_eq {command : List Bytes} (h : commands[seq]? = some command) :
    numbered commands seq = request command := by
  rw [numbered, List.getD_eq_getElem?_getD, h, Option.getD_some]

theorem serve_length (map : ExtTreeMap Key Bytes) (commands : List (List Bytes)) :
    (serve map commands).2.length = commands.length := by
  induction commands generalizing map with
  | nil => rfl
  | cons command commands ih => exact congrArg Nat.succ (ih _)

/-- Serving commands is to execute them in the order of their numbers. -/
theorem serve_eq_after (map : ExtTreeMap Key Bytes) (commands : List (List Bytes)) {count : Nat}
    (hcount : count ≤ commands.length) :
    (serve map (commands.take count)).1 = requestPrints.after (numbered commands) map (List.range count) := by
  induction count with
  | zero => rfl
  | succ count ih =>
    have hlt : count < commands.length := hcount
    have hnumbered : numbered commands count = request commands[count] :=
      numbered_eq (List.getElem?_eq_getElem hlt)
    rw [List.take_succ_eq_append_getElem hlt, serve_append, List.range_succ, Footprints.after_concat,
      ← ih (Nat.le_of_lt hlt), hnumbered]
    rfl

/-- The reply to the command with a number. -/
theorem serve_reply (map : ExtTreeMap Key Bytes) (commands : List (List Bytes)) (hseq : seq < commands.length) :
    (serve map commands).2[seq]? =
      some ((numbered commands seq).serve (requestPrints.after (numbered commands) map (List.range seq))).2 := by
  have hnumbered : numbered commands seq = request commands[seq] := numbered_eq (List.getElem?_eq_getElem hseq)
  rw [← serve_eq_after map commands (Nat.le_of_lt hseq), hnumbered]
  clear hnumbered
  induction commands generalizing map seq with
  | nil => cases hseq
  | cons command commands ih =>
    cases seq with
    | zero => rfl
    | succ seq => exact ih _ (Nat.lt_of_succ_lt_succ hseq)

/-- What numbered requests leave when they take effect in some order. -/
theorem served_eq_after {tasks : List WorkerTask}
    (htasks : ∀ task ∈ tasks, commands[task.seq]? = some task.command) :
    served start tasks = requestPrints.after (numbered commands) start (tasks.map (·.seq)) := by
  induction tasks using List.reverseRecOn with
  | nil => rfl
  | append_singleton tasks task ih =>
    rw [served_concat, List.map_append, List.map_singleton, Footprints.after_concat,
      numbered_eq (htasks task (by simp)), ih fun other hother => htasks other (List.mem_append_left _ hother)]
    rfl

/-- The requests of the effects of a log, in a front part of it, were parsed there. -/
theorem Service.Linear.asked_of_effect (h : self.Linear start log) {task : WorkerTask} (hmem : task ∈ effects log) :
    (asked log task.generation)[task.seq]? = some task.command := by
  obtain ⟨occurrence, hoccurrence, htask⟩ := List.mem_filterMap.mp hmem
  obtain ⟨first, rest, rfl⟩ := List.append_of_mem hoccurrence
  cases occurrence with
  | server observation => cases htask
  | effect other =>
    cases htask
    have hparsed := (h.explained first (.effect task) ⟨rest, by simp⟩).2
    rw [asked, observations_append, Journals.after_append]
    exact Journals.requested_later hparsed _

/-- A request keeps its number. -/
theorem numbered_of_asked {before : List Occurrence} {command : List Bytes} (hbefore : before <+: log)
    (h : (asked before generation)[seq]? = some command) :
    numbered (asked log generation) seq = request command := by
  obtain ⟨rest, rfl⟩ := hbefore
  refine numbered_eq ?_
  rw [asked, observations_append, Journals.after_append]
  exact Journals.requested_later h _

/-- Requests that take effect in turn respect the order of their numbers. -/
theorem InTurn.respects {before : List Occurrence} (h : InTurn log generation) (hlinear : self.Linear start log)
    (hbefore : before <+: log) :
    requestPrints.Respects (numbered (asked log generation)) ((effects before).map (·.seq)) := by
  have hgeneration : ∀ {front : List Occurrence}, front <+: log → ∀ task ∈ effects front, task.generation = generation := by
    intro front hfront task htask
    obtain ⟨rest, rfl⟩ := hfront
    exact h.alone task (by rw [effects_append]; exact List.mem_append_left _ htask)
  have hseqs : ∀ {front : List Occurrence}, front <+: log →
      (effects front).map WorkerTask.ticket = ((effects front).map (·.seq)).map fun seq => (generation, seq) := by
    intro front hfront
    rw [List.map_map]
    refine List.map_congr_left fun task htask => ?_
    rw [WorkerTask.ticket, hgeneration hfront task htask]
    rfl
  refine ⟨?_, ?_⟩
  · obtain ⟨rest, rfl⟩ := hbefore
    have honce := hlinear.once
    rw [effects_append, List.map_append] at honce
    have hfront := honce.of_append_left
    rw [hseqs (List.prefix_append _ _)] at hfront
    exact hfront.of_map _
  · intro inner number hinner other hless hconflict
    obtain ⟨rest, hrest⟩ := hinner
    obtain ⟨taken, later, heffects, htaken, -⟩ := List.map_eq_append_iff.mp hrest.symm
    obtain ⟨tasks, last, rfl, rfl, hlast⟩ := List.map_eq_append_iff.mp htaken
    obtain ⟨task, rfl, rfl⟩ := List.map_eq_singleton_iff.mp hlast
    have hplace : tasks ++ [task] <+: effects before := ⟨later, heffects.symm⟩
    obtain ⟨past, hpast, rfl⟩ := occurrence_of_effect hplace
    have hcut := hpast.trans hbefore
    have hparsed := (hlinear.explained past _ hcut).2
    have hsame : task.generation = generation := h.alone task (by
      obtain ⟨rest, rfl⟩ := hcut
      simp [effects])
    rw [hsame] at hparsed
    obtain ⟨command, hcommand⟩ : ∃ command, (asked past generation)[other]? = some command :=
      ⟨_, List.getElem?_eq_getElem (Nat.lt_trans hless (List.getElem?_eq_some_iff.mp hparsed).1)⟩
    rw [numbered_of_asked ((List.prefix_append _ _).trans hcut) hcommand, numbered_of_asked ((List.prefix_append _ _).trans hcut) hparsed] at hconflict
    obtain ⟨found, hfound, hticket⟩ := List.mem_map.mp (h.earlier past task hcut other hless command hcommand hconflict)
    exact List.mem_map.mpr ⟨found, hfound, (Prod.mk.inj hticket).2⟩

/-- A request that takes effect in turn has the reply that it has in the order of the numbers. -/
theorem InTurn.reply_eq {first : List WorkerTask} {task : WorkerTask} (h : InTurn log generation)
    (hlinear : self.Linear start log) (hplace : first ++ [task] <+: effects log) :
    (serve start (asked log generation)).2[task.seq]? =
      some ((request task.command).serve (served start first)).2 := by
  have hasked : ∀ other ∈ first ++ [task], (asked log generation)[other.seq]? = some other.command := by
    intro other hother
    have hmem := hplace.subset hother
    rw [← h.alone other hmem]
    exact hlinear.asked_of_effect hmem
  have htask := hasked task (by simp)
  obtain ⟨past, hpast, rfl⟩ := occurrence_of_effect hplace
  have hrespects := h.respects hlinear hpast
  rw [effects_append, List.map_append] at hrespects
  have hreturns := @Footprints.Respects.returns_eq _ _ _ _ _ _ _ start _ _ hrespects
  rw [serve_reply start _ (List.getElem?_eq_some_iff.mp htask).1,
    served_eq_after fun other hother => hasked other (List.mem_append_left _ hother), ← numbered_eq htask]
  exact congrArg some hreturns.symm

/-- In every run where only requests of one connection take effect, and each one after
those parsed before it that it conflicts with, the client sees the replies that it would
see if its requests were executed one after another, however they are pipelined, their
bytes are cut and the workers take turns. When all of them have taken effect, the
database has the contents that this execution leaves. -/
theorem Service.run_pipelined {system : System} {trace : List DiskEffect} {events : List ServiceEvent}
    {last : Service} (hstart : History (fun disk _ => disk.ScansInts) (some system.db) system.disk trace)
    (hrun : (Service.mk .start system []).run events = some (last, log)) (hturn : InTurn log generation) :
    Sequential system.db.contents log generation ∧
      ((∀ seq < (asked log generation).length, (generation, seq) ∈ (effects log).map WorkerTask.ticket) →
        last.system.db.contents = (serve system.db.contents (asked log generation)).1) := by
  have hlast := (Service.linear_start hstart).run hrun
  rw [List.nil_append] at hlast
  have hreplied : ∀ before task response, before ++ [.server (.responded task response)] <+: log →
      (serve system.db.contents (asked log generation)).2[task.seq]?.map Reply.bytes = some response := by
    intro before task response hcut
    obtain ⟨first, later, heffects, rfl⟩ := hlast.explained before _ hcut
    have hplace : first ++ [task] <+: effects log := by
      obtain ⟨rest, hrest⟩ := hcut
      refine ⟨later ++ effects rest, ?_⟩
      rw [← hrest, effects_append, effects_append, heffects]
      simp [effects]
    rw [hturn.reply_eq hlast hplace, Option.map_some]
  refine ⟨⟨hreplied, ?_⟩, ?_⟩
  · obtain ⟨server_events, hserver⟩ := @Service.run_server _ _ _ _ [] [] rfl hrun
    have hlawful := (TcpServer.run_keeps server_events).lawful
    rw [hserver, List.nil_append] at hlawful
    have hin : (Journals.empty.after (observations log) generation).InOrder :=
      hlawful.in_order (fun _ => ⟨0, [], Journal.Stream.nil _, List.nil_prefix⟩) generation
    obtain ⟨count, all, ⟨replies, hlength, hreplies, rfl⟩, hcut⟩ := hin
    refine hcut.trans ?_
    have hfront : replies <+: (serve system.db.contents (asked log generation)).2.map Reply.bytes ++
        if (Journals.empty.after (observations log) generation).failed then [protocol_error_reply] else [] := by
      rw [List.prefix_iff_getElem?]
      intro seq hseq
      have hresp := hreplies seq (hlength ▸ hseq)
      rw [List.getElem?_eq_getElem hseq] at hresp
      rw [List.getElem?_append, List.length_map, serve_length]
      unfold Journal.resp at hresp
      split_ifs at hresp with hlt hfailed
      · rw [if_pos (show seq < (asked log generation).length from hlt), List.getElem?_map]
        obtain ⟨before, task, hbefore, hticket⟩ := responded_of_lookup hresp
        obtain ⟨past, hpast, -⟩ := occurrence_of_observation hbefore
        cases hticket
        exact hreplied past task _ hpast
      · obtain ⟨hfailed, rfl⟩ := hfailed
        rw [← hresp, asked, if_neg (Nat.lt_irrefl _), if_pos hfailed, Nat.sub_self]
        rfl
    obtain ⟨rest, hrest⟩ := hfront
    rw [← hrest, List.flatten_append]
    exact List.prefix_append _ _
  · intro hall
    refine DBImpl.contents_eq fun key => ?_
    have hasked : ∀ task ∈ effects log, (asked log generation)[task.seq]? = some task.command := by
      intro task htask
      rw [← hturn.alone task htask]
      exact hlast.asked_of_effect htask
    have hrespects := hturn.respects hlast (List.prefix_refl _)
    have hsame : requestPrints.after (numbered (asked log generation)) system.db.contents
        ((effects log).map (·.seq)) = requestPrints.after (numbered (asked log generation)) system.db.contents
          (List.range (asked log generation).length) := by
      refine hrespects.after_eq fun seq => ⟨?_, ?_⟩
      · intro hmem
        obtain ⟨task, htask, rfl⟩ := List.mem_map.mp hmem
        exact (List.getElem?_eq_some_iff.mp (hasked task htask)).1
      · intro hlt
        obtain ⟨task, htask, hticket⟩ := List.mem_map.mp (hall seq hlt)
        exact List.mem_map.mpr ⟨task, htask, (Prod.mk.inj hticket).2⟩
    rw [← hlast.contents, served_eq_after hasked, hsame, ← serve_eq_after _ _ (Nat.le_refl _), List.take_length]

/-- Requests that take effect in the order of their numbers do so in turn. -/
theorem InTurn.of_range {count : Nat}
    (h : (effects log).map WorkerTask.ticket = (List.range count).map fun seq => (generation, seq)) :
    InTurn log generation where
  alone task htask := by
    have hmem := List.mem_map_of_mem (f := WorkerTask.ticket) htask
    rw [h] at hmem
    obtain ⟨seq, -, hseq⟩ := List.mem_map.mp hmem
    exact (Prod.mk.inj hseq).1.symm
  earlier before task hcut seq hseq command hcommand hconflict := by
    obtain ⟨rest, rfl⟩ := hcut
    have hsplit : (effects before).map WorkerTask.ticket ++ task.ticket :: (effects rest).map WorkerTask.ticket =
        (List.range count).map fun seq => (generation, seq) := by
      rw [← h, effects_append, effects_append]
      simp [effects]
    have hentry : ∀ (i : Nat) (ticket : Nat × Nat), ((effects before).map WorkerTask.ticket ++
        task.ticket :: (effects rest).map WorkerTask.ticket)[i]? = some ticket → ticket = (generation, i) := by
      intro i ticket hticket
      rw [hsplit, List.getElem?_map, Option.map_eq_some_iff] at hticket
      obtain ⟨j, hj, rfl⟩ := hticket
      rw [List.getElem?_range (by simpa using (List.getElem?_eq_some_iff.mp hj).1)] at hj
      cases hj
      rfl
    have htask := hentry ((effects before).map WorkerTask.ticket).length task.ticket (by simp)
    have hlt : seq < ((effects before).map WorkerTask.ticket).length := by
      have heq : task.seq = ((effects before).map WorkerTask.ticket).length := (Prod.mk.inj htask).2
      omega
    have hfound := hentry seq _ ((List.getElem?_append_left hlt).trans (List.getElem?_eq_getElem hlt))
    rw [← hfound]
    exact List.getElem_mem hlt

/-- A client sends a request to set a key and one to read it at once, two workers take
them, and the rest happens in the order of a schedule. -/
def oneClient (schedule : List ServiceEvent) : List ServiceEvent :=
  [.loop (.accept [⟨3, true, true⟩]),
    .loop (.connection 3 ⟨false, false, true, false⟩
      (.data (arrayBytes [ascii "SET", ascii "k", ascii "v"] ++ arrayBytes [ascii "GET", ascii "k"])) []
      (fun _ => true) true true), .start, .start] ++ schedule ++
    [.finish 1, .finish 0, .loop (.completions fun _ => true),
      .loop (.connection 3 ⟨false, false, false, true⟩ .unavailable [.wrote 100] (fun _ => true) true true)]

theorem Service.run_pipelined_oneClient : ∃ start last log, System.open .forward Disk.empty = some start ∧
    (Service.mk .start start []).run (oneClient [.put_lock 0, .put_write 0, .read 1]) = some (last, log) ∧
      Sequential start.db.contents log 1 ∧
      ((∀ seq < (asked log 1).length, (1, seq) ∈ (effects log).map WorkerTask.ticket) →
        last.system.db.contents = (serve start.db.contents (asked log 1)).1) := by
  have hsome : (((System.open .forward Disk.empty).bind fun start => (Service.mk .start start []).run
      (oneClient [.put_lock 0, .put_write 0, .read 1])).map fun outcome =>
        (effects outcome.2).map WorkerTask.ticket) = some [(1, 0), (1, 1)] := by
    decide +kernel
  obtain ⟨⟨last, log⟩, hlast, htickets⟩ := Option.map_eq_some_iff.mp hsome
  obtain ⟨start, hstart, hrun⟩ := Option.bind_eq_some_iff.mp hlast
  have hopened : ∃ trace, History (fun disk _ => disk.ScansInts) (some start.db) start.disk trace :=
    History.opened .empty (by rintro _ _ ⟨⟩) hstart
  obtain ⟨_, hhistory⟩ := hopened
  have hturn : InTurn log 1 := InTurn.of_range (@Eq.trans _ _ _ ((List.range 2).map fun seq => (1, seq)) htickets rfl)
  exact ⟨start, last, log, hstart, hrun, Service.run_pipelined hhistory hrun hturn⟩

/-- The read of the second worker comes first, and the client sees no value for the key
that it has set before. -/
theorem Service.run_out_of_turn : ∃ start last log, System.open .forward Disk.empty = some start ∧
    (Service.mk .start start []).run (oneClient [.read 1, .put_lock 0, .put_write 0]) = some (last, log) ∧
      (∀ task ∈ effects log, task.generation = 1) ∧ ¬ Sequential start.db.contents log 1 := by
  have hsome : (((System.open .forward Disk.empty).bind fun start => (Service.mk .start start []).run
      (oneClient [.read 1, .put_lock 0, .put_write 0])).map fun outcome =>
        ((effects outcome.2).map (·.generation), asked outcome.2 1,
          (Journals.empty.after (observations outcome.2) 1).failed,
          (Journals.empty.after (observations outcome.2) 1).sent)) =
      some ([1, 1], [[ascii "SET", ascii "k", ascii "v"], [ascii "GET", ascii "k"]], false,
        ascii "+OK" ++ crlf ++ (ascii "$-1" ++ crlf)) := by
    decide +kernel
  obtain ⟨⟨last, log⟩, hlast, hfacts⟩ := Option.map_eq_some_iff.mp hsome
  obtain ⟨start, hstart, hrun⟩ := Option.bind_eq_some_iff.mp hlast
  obtain ⟨hgenerations, hfacts⟩ := Prod.mk.inj hfacts
  obtain ⟨hasked, hfacts⟩ := Prod.mk.inj hfacts
  obtain ⟨hfailed, hsent⟩ := Prod.mk.inj hfacts
  refine ⟨start, last, log, hstart, hrun, ?_, ?_⟩
  · intro task htask
    have hmem := List.mem_map_of_mem (f := fun task => task.generation) htask
    rw [hgenerations] at hmem
    simpa using hmem
  · intro hsequential
    have hset : request [ascii "SET", ascii "k", ascii "v"] = .set (ascii "k") (ascii "v") := by
      rw [request, if_pos (by decide +kernel)]
    have hget : request [ascii "GET", ascii "k"] = .get (ascii "k") := by
      rw [request, if_neg (by decide +kernel), if_pos (by decide +kernel)]
    have hcut := hsequential.sent
    rw [hasked, hfailed, hsent] at hcut
    simp only [serve, hset, hget, Request.serve, ExtTreeMap.getElem?_insert_self, List.map_cons, List.map_nil] at hcut
    revert hcut
    decide +kernel

end

end NovaKV
