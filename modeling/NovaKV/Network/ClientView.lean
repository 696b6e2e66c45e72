import NovaKV.Network.Linearization
import NovaKV.Network.ResponseStream

open Std
open NovaKV.Lib

namespace NovaKV

/-- Replies are those that an ordered map gives on a connection. Each request has the
reply of the map at the moment it took effect, and behind the last one there may be the
reply to a protocol error. -/
structure Answers (start : ExtTreeMap Key Bytes) (log : List Occurrence) (generation : Nat)
    (replies : List Bytes) : Prop where
  request : ∀ seq response, replies[seq]? = some response →
    seq < (Journals.empty.after (observations log) generation).requests.length →
      ∃ task first later, task.ticket = (generation, seq) ∧
        (Journals.empty.after (observations log) generation).requests[seq]? = some task.command ∧
        effects log = first ++ task :: later ∧
        response = ((request task.command).serve (served start first)).2.bytes
  protocol_error : ∀ seq response, replies[seq]? = some response →
    (Journals.empty.after (observations log) generation).requests.length ≤ seq →
      seq = (Journals.empty.after (observations log) generation).requests.length ∧
        (Journals.empty.after (observations log) generation).failed = true ∧ response = protocol_error_reply

section

variable {start : ExtTreeMap Key Bytes} {log : List Occurrence} {self : Service}

/-- A response that there is has been computed at some moment. -/
theorem responded_of_lookup {generation seq : Nat} {response : Bytes} {past : List Observation}
    (h : (Journals.empty.after past generation).responses.lookup seq = some response) :
    ∃ before task, before ++ [.responded task response] <+: past ∧ task.ticket = (generation, seq) := by
  induction past using List.reverseRecOn with
  | nil => cases h
  | append_singleton past observation ih =>
    have hearlier : (Journals.empty.after past generation).responses.lookup seq = some response →
        ∃ before task, before ++ [.responded task response] <+: past ++ [observation] ∧
          task.ticket = (generation, seq) := by
      intro hold
      obtain ⟨before, task, hcut, hticket⟩ := ih hold
      exact ⟨before, task, hcut.trans (List.prefix_append _ _), hticket⟩
    rw [Journals.after_append] at h
    by_cases hgeneration : observation.generation = generation
    · subst hgeneration
      have hself := @Journals.record_self (Journals.empty.after past) observation
      cases observation with
      | responded task found =>
        rw [Journals.after, List.foldl_cons, List.foldl_nil, hself, Journal.record] at h
        dsimp only at h
        rw [List.lookup_append] at h
        cases hold : (Journals.empty.after past task.generation).responses.lookup seq with
        | some early =>
          rw [Observation.generation, hold, Option.some_or] at h
          cases h
          exact hearlier hold
        | none =>
          rw [Observation.generation, hold, Option.none_or] at h
          by_cases hseq : task.seq = seq
          · subst hseq
            have heq : found = response := by simpa using h
            subst heq
            exact ⟨past, task, List.prefix_refl _, rfl⟩
          · rw [lookup_cons_of_ne (Ne.symm hseq)] at h
            cases h
      | _ =>
        rw [Journals.after, List.foldl_cons, List.foldl_nil, hself] at h
        exact hearlier h
    · rw [Journals.after, List.foldl_cons, List.foldl_nil, Journals.record_other hgeneration] at h
      exact hearlier h

/-- What a filter keeps of a list comes from a place in the list. -/
theorem prefix_of_filterMap {α β : Type} {keep : α → Option β} {entries : List α} {before : List β} {kept : β}
    (h : before ++ [kept] <+: entries.filterMap keep) :
    ∃ past entry, past ++ [entry] <+: entries ∧ keep entry = some kept ∧ past.filterMap keep = before := by
  induction entries using List.reverseRecOn with
  | nil => simp at h
  | append_singleton entries entry ih =>
    have hearlier : before ++ [kept] <+: entries.filterMap keep →
        ∃ past other, past ++ [other] <+: entries ++ [entry] ∧ keep other = some kept ∧
          past.filterMap keep = before := by
      intro hold
      obtain ⟨past, other, hpast, hkept, hbefore⟩ := ih hold
      exact ⟨past, other, hpast.trans (List.prefix_append _ _), hkept, hbefore⟩
    rw [List.filterMap_append] at h
    cases hentry : keep entry with
    | none => exact hearlier (by simpa [hentry] using h)
    | some value =>
      have hlast : before ++ [kept] <+: entries.filterMap keep ++ [value] := by simpa [hentry] using h
      rcases List.prefix_concat_iff.mp hlast with heq | hold
      · obtain ⟨hbefore, hvalue⟩ := List.append_inj' heq rfl
        cases (List.cons.inj hvalue).1
        exact ⟨entries, entry, List.prefix_refl _, hentry, hbefore.symm⟩
      · exact hearlier hold

theorem occurrence_of_observation {before : List Observation} {observation : Observation}
    (h : before ++ [observation] <+: observations log) :
    ∃ past, past ++ [.server observation] <+: log ∧ observations past = before := by
  obtain ⟨past, occurrence, hpast, hkept, hbefore⟩ := prefix_of_filterMap h
  cases occurrence with
  | server other =>
    cases hkept
    exact ⟨past, hpast, hbefore⟩
  | effect task => cases hkept

theorem occurrence_of_effect {before : List WorkerTask} {task : WorkerTask} (h : before ++ [task] <+: effects log) :
    ∃ past, past ++ [.effect task] <+: log ∧ effects past = before := by
  obtain ⟨past, occurrence, hpast, hkept, hbefore⟩ := prefix_of_filterMap h
  cases occurrence with
  | server observation => cases hkept
  | effect other =>
    cases hkept
    exact ⟨past, hpast, hbefore⟩

/-- What has been sent on a connection at any moment of a run is a front part of the
replies that one ordered map gives to its requests in the order of the connection. -/
theorem Service.run_answers {system : System} {trace : List DiskEffect} {events : List ServiceEvent}
    {last : Service} (hstart : History (fun disk _ => disk.ScansInts) (some system.db) system.disk trace)
    (hrun : (Service.mk .start system []).run events = some (last, log)) (generation : Nat) :
    ∃ replies, Answers system.db.contents log generation replies ∧
      (Journals.empty.after (observations log) generation).sent <+: replies.flatten := by
  have hlast := (Service.linear_start hstart).run hrun
  rw [List.nil_append] at hlast
  obtain ⟨server_events, hserver⟩ := @Service.run_server _ _ _ _ [] [] rfl hrun
  have hlawful := (TcpServer.run_keeps server_events).lawful
  rw [hserver, List.nil_append] at hlawful
  have hin : (Journals.empty.after (observations log) generation).InOrder :=
    hlawful.in_order (fun _ => ⟨0, [], Journal.Stream.nil _, List.nil_prefix⟩) generation
  obtain ⟨count, all, ⟨replies, hlength, hreplies, rfl⟩, hcut⟩ := hin
  have hresp : ∀ seq response, replies[seq]? = some response →
      (Journals.empty.after (observations log) generation).resp seq = some response := by
    intro seq response hresponse
    rw [hreplies seq (hlength ▸ (List.getElem?_eq_some_iff.mp hresponse).1), hresponse]
  refine ⟨replies, ⟨?_, ?_⟩, hcut⟩
  · intro seq response hresponse hlt
    have hlookup := hresp seq response hresponse
    rw [Journal.resp_of_lt hlt] at hlookup
    obtain ⟨before, task, hbefore, hticket⟩ := responded_of_lookup hlookup
    obtain ⟨past, hpast, rfl⟩ := occurrence_of_observation hbefore
    obtain ⟨first, later, heffects, heq⟩ := hlast.explained past _ hpast
    obtain ⟨rest, rfl⟩ := hpast
    have hrequest := (hlawful.last hbefore).1
    cases hticket
    refine ⟨task, first, later ++ effects ([.server (.responded task response)] ++ rest), rfl, ?_, ?_, heq⟩
    · rw [List.append_assoc, observations_append, Journals.after_append]
      exact Journals.requested_later hrequest _
    · rw [List.append_assoc, effects_append, heffects, List.append_assoc, List.cons_append]
  · intro seq response hresponse hle
    have hfound := hresp seq response hresponse
    unfold Journal.resp at hfound
    rw [if_neg (Nat.not_lt.mpr hle)] at hfound
    split at hfound
    · rename_i hfailed
      exact ⟨hfailed.2, hfailed.1, (Option.some.inj hfound).symm⟩
    · cases hfound

theorem Service.run_answers_setAndGet : ∃ start last log replies, System.open .forward Disk.empty = some start ∧
    (Service.mk .start start []).run setAndGet = some (last, log) ∧ Answers start.db.contents log 2 replies ∧
      (Journals.empty.after (observations log) 2).sent <+: replies.flatten := by
  have hsome : ((System.open .forward Disk.empty).bind fun start =>
      (Service.mk .start start []).run setAndGet).isSome = true := by
    decide +kernel
  obtain ⟨⟨last, log⟩, hlast⟩ := Option.isSome_iff_exists.mp hsome
  obtain ⟨start, hstart, hrun⟩ := Option.bind_eq_some_iff.mp hlast
  have hopened : ∃ trace, History (fun disk _ => disk.ScansInts) (some start.db) start.disk trace :=
    History.opened .empty (by rintro _ _ ⟨⟩) hstart
  obtain ⟨_, hhistory⟩ := hopened
  obtain ⟨replies, hanswers, hcut⟩ := Service.run_answers hhistory hrun 2
  exact ⟨start, last, log, replies, hstart, hrun, hanswers, hcut⟩

end

end NovaKV
