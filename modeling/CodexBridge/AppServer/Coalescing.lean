import CodexBridge.AppServer.Callbacks
import Mathlib.Data.List.Flatten

/-! # Joined text deltas

The calls of the worker are what was submitted, in order and in groups: alone, or a run of deltas
that go together. The group of a callback is fixed once the worker has called it.
-/

namespace CodexBridge.AppServer.Callbacks

open Runs

variable {floats : Json → Json → Bool} {queued : Nat} {w w' : World}

/-! ## Groups -/

def Joins (floats : Json → Json → Bool) (items : List Item) (d : Delta) (text : String) : Prop :=
  ∃ rest : List Delta, items.map Item.delta? = (d :: rest).map some ∧
    (∀ e ∈ rest, d.matches floats e = true) ∧
    text = String.join ((d :: rest).map Delta.text) ∧
    (rest ≠ [] → text.utf8ByteSize ≤ maxCoalescedBytes)

def Call.Delivers (floats : Json → Json → Bool) (c : Call) : Prop :=
  (c.items = [c.body] ∧ c.body.delta? = none) ∨
    ∃ d text, Joins floats c.items d text ∧ c.body = .notice (d.notification text) d.handler

theorem join_singleton (text : String) : String.join [text] = text := by
  rw [← String.toList_inj, String.toList_join]
  exact List.append_nil _

theorem Joins.append {items : List Item} {d e : Delta} {text : String} {item : Item}
    (h : Joins floats items d text) (hitem : item.delta? = some e)
    (hmatches : d.matches floats e = true)
    (hsize : text.utf8ByteSize + e.text.utf8ByteSize ≤ maxCoalescedBytes) :
    Joins floats (items ++ [item]) d (text ++ e.text) := by
  obtain ⟨rest, hitems, hrest, htext, _⟩ := h
  refine ⟨rest ++ [e], ?_, ?_, ?_, ?_⟩
  · rw [List.map_append, hitems, List.map_singleton, hitem, ← List.cons_append, List.map_append]
    rfl
  · intro f hf
    rcases List.mem_append.mp hf with hf | hf
    · exact hrest f hf
    · rw [List.mem_singleton.mp hf]
      exact hmatches
  · rw [htext, ← List.cons_append, List.map_append, String.join_append, List.map_singleton,
      join_singleton]
  · intro _
    rw [String.utf8ByteSize_append]
    exact hsize

structure TextCallback.Holds (floats : Json → Json → Bool) (t : TextCallback) : Prop where
  joins : Joins floats t.items t.delta (String.join t.fragments)
  size : t.sizeBytes = (String.join t.fragments).utf8ByteSize

theorem TextCallback.holds_create {item : Item} {d : Delta} (h : item.delta? = some d) :
    (TextCallback.create item d).Holds floats where
  joins := by
    refine ⟨[], ?_, fun _ he => absurd he List.not_mem_nil, rfl, fun hne => absurd rfl hne⟩
    show [item.delta?] = [some d]
    rw [h]
  size := by
    show d.text.utf8ByteSize = (String.join [d.text]).utf8ByteSize
    rw [join_singleton]

/-- What holds when `try_coalesce` returns `True`, and what it does then. -/
theorem TextCallback.tryCoalesce_cases {t other t' : TextCallback}
    (h : t.tryCoalesce floats other = some t') :
    t.delta.matches floats other.delta = true ∧ t.started = false ∧
      t.sizeBytes + other.sizeBytes ≤ maxCoalescedBytes ∧ t'.delta = t.delta ∧
      t'.started = false ∧ t'.items = t.items ++ other.items ∧
      t'.sizeBytes = t.sizeBytes + other.sizeBytes ∧
      String.join t'.fragments = String.join t.fragments ++ String.join other.fragments := by
  unfold TextCallback.tryCoalesce at h
  obtain ⟨hmatches, h⟩ := Option.ite_none_right_eq_some.mp h
  obtain ⟨hopen, h⟩ := Option.ite_none_left_eq_some.mp h
  have hstarted : t.started = false := by
    cases hs : t.started with
    | false => rfl
    | true => exact absurd (.inl hs) hopen
  have hsize : t.sizeBytes + other.sizeBytes ≤ maxCoalescedBytes := by
    by_cases hle : t.sizeBytes + other.sizeBytes ≤ maxCoalescedBytes
    · exact hle
    · exact absurd (.inr (by omega)) hopen
  cases h
  refine ⟨hmatches, hstarted, hsize, rfl, hstarted, rfl, rfl, ?_⟩
  show String.join (_ ++ other.fragments) = _
  rw [String.join_append]
  split
  · rw [join_singleton]
  · rfl

theorem TextCallback.Holds.tryCoalesce {t t' : TextCallback} {item : Item} {d : Delta}
    (ht : t.Holds floats) (hitem : item.delta? = some d)
    (h : t.tryCoalesce floats (.create item d) = some t') : t'.Holds floats := by
  obtain ⟨hmatches, _, hsize, hdelta, _, hitems, hbytes, htext⟩ := tryCoalesce_cases h
  have hnew : String.join (TextCallback.create item d).fragments = d.text := join_singleton d.text
  rw [hnew] at htext
  constructor
  · rw [hdelta, hitems, htext]
    apply ht.joins.append hitem hmatches
    rw [← ht.size]
    exact hsize
  · rw [hbytes, htext, String.utf8ByteSize_append, ← ht.size]
    rfl

def Callback.items (texts : List TextCallback) : Callback → List Item
  | .text id => (texts[id]?.map TextCallback.items).getD []
  | .notice n handler => [.notice n handler]
  | .task id => [.task id]
  | .stop => []

def Worker.held : Worker → List Callback
  | .holding callback => [callback]
  | _ => []

def Worker.unchecked : Worker → List Call
  | .calling call => [call]
  | _ => []

/-- The text callback with which a later submission would be joined. -/
def Submitting.nextTail (tail : Option Nat) : Submitting → Option Nat
  | .settling (.text id) => some id
  | .settling _ => none
  | _ => tail

def Apart (a b : Callback) : Prop := ∀ id, a = .text id → b ≠ .text id

namespace World

def pending (w : World) : List Callback := w.worker.held ++ w.queue

def line (w : World) : List Item :=
  w.calls.flatMap Call.items ++ w.pending.flatMap (Callback.items w.texts)

def LastOrStarted (w : World) (id : Nat) : Prop :=
  w.pending.getLast? = some (.text id) ∨ ∃ t, w.texts[id]? = some t ∧ t.started = true

/-- The calls, what is pending and what was accepted agree. -/
structure Inv (floats : Json → Json → Bool) (w : World) : Prop where
  holds : ∀ t ∈ w.texts, t.Holds floats
  apart : w.pending.Pairwise Apart
  known : ∀ id, .text id ∈ w.pending → ∃ t, w.texts[id]? = some t ∧ t.started = false
  plain : ∀ n handler, .notice n handler ∈ w.pending → (Item.notice n handler).delta? = none
  last : ∀ id, w.submitting.nextTail w.tail = some id → w.LastOrStarted id
  closing : w.closing ≠ .open → w.closed = true
  drained : w.closing = .draining ∨ w.closing = .stopped → w.tail = none ∧ w.submitting = .free
  stops : .stop ∈ w.pending → w.closing = .stopped
  sublist : w.line.Sublist w.accepted
  all : w.closed = false → w.line = w.accepted
  delivers : ∀ c ∈ w.calls, c.Delivers floats
  invoked : w.calls = w.invoked.map Invocation.call ++ w.worker.unchecked
  handled : w.handled = (w.invoked.filter Invocation.current).map Invocation.call

theorem inv_initial : (initial).Inv floats where
  holds := fun _ ht => absurd ht List.not_mem_nil
  apart := List.Pairwise.nil
  known := fun _ hid => absurd hid List.not_mem_nil
  plain := fun _ _ hn => absurd hn List.not_mem_nil
  last := fun id hid => by cases hid
  closing := fun hne => absurd rfl hne
  drained := fun h => by
    rcases h with h | h
    · cases h
    · cases h
  stops := fun h => absurd h List.not_mem_nil
  sublist := List.Sublist.refl _
  all := fun _ => rfl
  delivers := fun _ hc => absurd hc List.not_mem_nil
  invoked := rfl
  handled := rfl

theorem Inv.of_pending (h : w.Inv floats) (hpending : w'.pending = w.pending)
    (htexts : w'.texts = w.texts)
    (hnext : w'.submitting.nextTail w'.tail = w.submitting.nextTail w.tail)
    (hclosed : w'.closed = w.closed) (hclosing : w'.closing = w.closing)
    (hdrained : w.closing = .draining ∨ w.closing = .stopped →
      w'.tail = none ∧ w'.submitting = .free)
    (haccepted : w'.accepted = w.accepted) (hcalls : w'.calls = w.calls)
    (hinvoked : w'.calls = w'.invoked.map Invocation.call ++ w'.worker.unchecked)
    (hhandled : w'.handled = (w'.invoked.filter Invocation.current).map Invocation.call) :
    w'.Inv floats := by
  have hline : w'.line = w.line := by
    unfold World.line
    rw [hpending, htexts, hcalls]
  constructor
  · rw [htexts]
    exact h.holds
  · rw [hpending]
    exact h.apart
  · rw [hpending, htexts]
    exact h.known
  · rw [hpending]
    exact h.plain
  · intro id hid
    unfold World.LastOrStarted
    rw [hpending, htexts]
    exact h.last id (hnext.symm.trans hid)
  · rw [hclosing, hclosed]
    exact h.closing
  · rw [hclosing]
    exact hdrained
  · rw [hpending, hclosing]
    exact h.stops
  · rw [hline, haccepted]
    exact h.sublist
  · rw [hline, haccepted, hclosed]
    exact h.all
  · rw [hcalls]
    exact h.delivers
  · exact hinvoked
  · exact hhandled

theorem Inv.failGeneration (h : w.Inv floats) (generation : Nat) :
    (w.failGeneration generation).Inv floats := by
  unfold World.failGeneration
  split
  · exact h
  split
  · exact h.of_pending rfl rfl rfl rfl rfl h.drained rfl rfl h.invoked h.handled
  · exact h

/-! ## Submitting -/

theorem flatMap_items_congr {texts texts' : List TextCallback} {callbacks : List Callback}
    (h : ∀ c ∈ callbacks, c.items texts' = c.items texts) :
    callbacks.flatMap (Callback.items texts') = callbacks.flatMap (Callback.items texts) := by
  induction callbacks with
  | nil => rfl
  | cons c rest ih =>
    rw [List.flatMap_cons, List.flatMap_cons, h c List.mem_cons_self,
      ih fun d hd => h d (List.mem_cons_of_mem c hd)]

theorem items_set_of_ne {texts : List TextCallback} {id : Nat} {t : TextCallback} {c : Callback}
    (h : c ≠ .text id) : c.items (texts.set id t) = c.items texts := by
  cases c with
  | text i =>
    have hne : id ≠ i := fun heq => h (by rw [heq])
    show ((texts.set id t)[i]?.map TextCallback.items).getD [] = _
    rw [List.getElem?_set_ne hne]
    rfl
  | notice | task | stop => rfl

section

variable (h : w.Inv floats)

include h

theorem Inv.closed_of (hclosing : w.closing = .draining ∨ w.closing = .stopped) :
    w.closed = true := by
  apply h.closing
  intro heq
  rw [heq] at hclosing
  rcases hclosing with hclosing | hclosing
  · cases hclosing
  · cases hclosing

/-- The tail takes the delta as the last item in line. -/
theorem Inv.coalesce {item : Item} (hsubmitting : w.submitting = .entered item)
    {id : Nat} {t' : TextCallback} (hc : w.coalesced floats item = some (id, t')) :
    Inv floats { w with
      texts := w.texts.set id t'
      accepted := w.accepted ++ [item]
      submitting := .free } := by
  obtain ⟨j, htail, hc⟩ := Option.bind_eq_some_iff.mp hc
  obtain ⟨t, ht, hc⟩ := Option.bind_eq_some_iff.mp hc
  obtain ⟨d, hd, hc⟩ := Option.bind_eq_some_iff.mp hc
  obtain ⟨u, htry, hc⟩ := Option.map_eq_some_iff.mp hc
  cases hc
  obtain ⟨_, hstarted, _, _, hstarted', hitems, _, _⟩ := TextCallback.tryCoalesce_cases htry
  have hnext : w.submitting.nextTail w.tail = some id := by
    rw [hsubmitting]
    exact htail
  have hlength : id < w.texts.length := (List.getElem?_eq_some_iff.mp ht).choose
  have hself : (w.texts.set id t')[id]? = some t' := by
    rw [List.getElem?_set_self hlength]
  -- nothing comes after the tail, as it has not been started
  have hlast : w.pending.getLast? = some (.text id) := by
    rcases h.last id hnext with hlast | ⟨u, hu, hustarted⟩
    · exact hlast
    rw [ht] at hu
    cases hu
    rw [hstarted] at hustarted
    cases hustarted
  obtain ⟨before, hbefore⟩ := List.getLast?_eq_some_iff.mp hlast
  have hapart := h.apart
  rw [hbefore] at hapart
  have hother : ∀ c ∈ before, c ≠ .text id := by
    intro c hcmem heq
    exact (List.pairwise_append.mp hapart).2.2 c hcmem _ List.mem_cons_self id heq rfl
  have hline : w.pending.flatMap (Callback.items (w.texts.set id t')) =
      w.pending.flatMap (Callback.items w.texts) ++ [item] := by
    have hnew : Callback.items (w.texts.set id t') (.text id) = t.items ++ [item] := by
      show ((w.texts.set id t')[id]?.map TextCallback.items).getD [] = _
      rw [hself]
      exact hitems
    have hold : Callback.items w.texts (.text id) = t.items := by
      show (w.texts[id]?.map TextCallback.items).getD [] = _
      rw [ht]
      rfl
    rw [hbefore, List.flatMap_append, List.flatMap_append, List.flatMap_singleton,
      List.flatMap_singleton, hnew, hold, List.append_assoc,
      flatMap_items_congr fun c hcmem => items_set_of_ne (hother c hcmem)]
  refine ⟨?_, h.apart, ?_, h.plain, ?_, h.closing, ?_, h.stops, ?_, ?_, h.delivers, h.invoked,
    h.handled⟩
  · intro u hu
    rcases List.mem_or_eq_of_mem_set hu with hu | rfl
    · exact h.holds u hu
    · exact (h.holds t (List.mem_of_getElem? ht)).tryCoalesce hd htry
  · intro i hi
    by_cases heq : i = id
    · subst heq
      exact ⟨t', hself, hstarted'⟩
    · obtain ⟨u, hu, hustarted⟩ := h.known i hi
      exact ⟨u, by rw [List.getElem?_set_ne (Ne.symm heq)]; exact hu, hustarted⟩
  · intro i hi
    have hi : w.tail = some i := hi
    rw [htail] at hi
    cases hi
    exact .inl hlast
  · intro hdraining
    have hfree := (h.drained hdraining).2
    rw [hsubmitting] at hfree
    cases hfree
  · show (w.calls.flatMap Call.items ++ w.pending.flatMap _).Sublist _
    rw [hline, ← List.append_assoc]
    exact h.sublist.append (List.Sublist.refl _)
  · intro hopen
    show w.calls.flatMap Call.items ++ w.pending.flatMap _ = _
    rw [hline, ← List.append_assoc]
    exact congrArg (· ++ [item]) (h.all hopen)

theorem Inv.items_append (more : List TextCallback) :
    w.pending.flatMap (Callback.items (w.texts ++ more)) =
      w.pending.flatMap (Callback.items w.texts) := by
  apply flatMap_items_congr
  intro c hc
  cases c with
  | text id =>
    obtain ⟨t, ht, _⟩ := h.known id hc
    have hlength : id < w.texts.length := (List.getElem?_eq_some_iff.mp ht).choose
    show ((w.texts ++ more)[id]?.map TextCallback.items).getD [] = _
    rw [List.getElem?_append_left hlength]
    rfl
  | notice | task | stop => rfl

theorem Inv.enqueue {item : Item} (hsubmitting : w.submitting = .putting item)
    {c : Callback} {more : List TextCallback} (hmore : ∀ t ∈ more, t.Holds floats)
    (hitems : c.items (w.texts ++ more) = [item]) (hstop : c ≠ .stop)
    (hplain : ∀ n handler, c = .notice n handler → (Item.notice n handler).delta? = none)
    (htext : ∀ id, c = .text id → id = w.texts.length ∧
      ∃ t, (w.texts ++ more)[id]? = some t ∧ t.started = false) :
    Inv floats { w with
      queue := w.queue ++ [c]
      texts := w.texts ++ more
      accepted := w.accepted ++ [item]
      submitting := .settling c } := by
  have hpending : World.pending { w with
      queue := w.queue ++ [c]
      texts := w.texts ++ more
      accepted := w.accepted ++ [item]
      submitting := .settling c } = w.pending ++ [c] :=
    (List.append_assoc w.worker.held w.queue [c]).symm
  have hline : World.line { w with
      queue := w.queue ++ [c]
      texts := w.texts ++ more
      accepted := w.accepted ++ [item]
      submitting := .settling c } = w.line ++ [item] := by
    unfold World.line
    rw [hpending, List.flatMap_append, List.flatMap_singleton, hitems, h.items_append,
      List.append_assoc]
  have hbusy : ¬ (w.closing = .draining ∨ w.closing = .stopped) := by
    intro hdraining
    have hfree := (h.drained hdraining).2
    rw [hsubmitting] at hfree
    cases hfree
  refine ⟨?_, ?_, ?_, ?_, ?_, h.closing, fun hdraining => absurd hdraining hbusy, ?_, ?_, ?_,
    h.delivers, h.invoked, h.handled⟩
  · intro t ht
    rcases List.mem_append.mp ht with ht | ht
    · exact h.holds t ht
    · exact hmore t ht
  · rw [hpending]
    refine List.pairwise_append.mpr ⟨h.apart, List.pairwise_singleton _ _, ?_⟩
    intro a ha b hb id heq hsame
    rw [List.mem_singleton.mp hb] at hsame
    subst heq
    obtain ⟨t, ht, _⟩ := h.known id ha
    have hlength : id < w.texts.length := (List.getElem?_eq_some_iff.mp ht).choose
    have hnew := (htext id hsame).1
    omega
  · intro id hid
    rw [hpending] at hid
    rcases List.mem_append.mp hid with hid | hid
    · obtain ⟨t, ht, hstarted⟩ := h.known id hid
      have hlength : id < w.texts.length := (List.getElem?_eq_some_iff.mp ht).choose
      have hkept : (w.texts ++ more)[id]? = some t := by
        rw [List.getElem?_append_left hlength]
        exact ht
      exact ⟨t, hkept, hstarted⟩
    · exact (htext id (List.mem_singleton.mp hid).symm).2
  · intro n handler hn
    rw [hpending] at hn
    rcases List.mem_append.mp hn with hn | hn
    · exact h.plain n handler hn
    · exact hplain n handler (List.mem_singleton.mp hn).symm
  · intro id hid
    have hc : c = .text id := by
      cases c with
      | text i =>
        cases hid
        rfl
      | notice | task | stop => cases hid
    apply Or.inl
    rw [hpending, hc, List.getLast?_concat]
  · intro hmem
    rw [hpending] at hmem
    rcases List.mem_append.mp hmem with hmem | hmem
    · exact h.stops hmem
    · exact absurd (List.mem_singleton.mp hmem).symm hstop
  · rw [hline]
    exact h.sublist.append (List.Sublist.refl _)
  · intro hopen
    rw [hline, h.all hopen]

theorem Inv.put {item : Item} (hsubmitting : w.submitting = .putting item) :
    Inv floats { w with
      queue := w.queue ++ [(w.callbackOf item).1]
      texts := (w.callbackOf item).2
      accepted := w.accepted ++ [item]
      submitting := .settling (w.callbackOf item).1 } := by
  unfold World.callbackOf
  cases hd : item.delta? with
  | some d =>
    have hlast : (w.texts ++ [TextCallback.create item d])[w.texts.length]? =
        some (.create item d) := by
      rw [List.getElem?_append_right (Nat.le_refl _), Nat.sub_self]
      rfl
    apply h.enqueue hsubmitting
    · intro t ht
      rw [List.mem_singleton.mp ht]
      exact TextCallback.holds_create hd
    · show ((w.texts ++ [_])[w.texts.length]?.map TextCallback.items).getD [] = _
      rw [hlast]
      rfl
    · exact fun heq => by cases heq
    · exact fun n handler heq => by cases heq
    · intro id heq
      cases heq
      exact ⟨rfl, _, hlast, rfl⟩
  | none =>
    have hnone : w.texts = w.texts ++ [] := (List.append_nil w.texts).symm
    cases item with
    | notice n handler =>
      show Inv floats { w with
        queue := w.queue ++ [.notice n handler]
        accepted := w.accepted ++ [.notice n handler]
        submitting := .settling (.notice n handler) }
      rw [hnone]
      apply h.enqueue hsubmitting (fun t ht => absurd ht List.not_mem_nil) rfl
      · exact fun heq => by cases heq
      · intro m other heq
        cases heq
        exact hd
      · exact fun id heq => by cases heq
    | task id =>
      show Inv floats { w with
        queue := w.queue ++ [.task id]
        accepted := w.accepted ++ [.task id]
        submitting := .settling (.task id) }
      rw [hnone]
      apply h.enqueue hsubmitting (fun t ht => absurd ht List.not_mem_nil) rfl
      · exact fun heq => by cases heq
      · exact fun n handler heq => by cases heq
      · exact fun i heq => by cases heq

theorem Inv.submitting {s : Submitting} {tail : Option Nat}
    (hdrained : ¬ (w.closing = .draining ∨ w.closing = .stopped))
    (hnext : s.nextTail tail = w.submitting.nextTail w.tail) :
    Inv floats { w with submitting := s, tail := tail } :=
  h.of_pending rfl rfl hnext rfl rfl (fun hd => absurd hd hdrained) rfl rfl h.invoked h.handled

theorem Inv.not_draining (hsubmitting : w.submitting ≠ .free) :
    ¬ (w.closing = .draining ∨ w.closing = .stopped) := by
  intro hdraining
  exact hsubmitting (h.drained hdraining).2

theorem Inv.moved {queue : List Callback} {worker : Worker}
    (hsame : worker.held ++ queue = w.pending)
    (hunchecked : worker.unchecked = w.worker.unchecked) :
    Inv floats { w with queue := queue, worker := worker } := by
  have hpending : World.pending { w with queue := queue, worker := worker } = w.pending := hsame
  apply h.of_pending hpending rfl rfl rfl rfl h.drained rfl rfl _ h.handled
  show w.calls = w.invoked.map Invocation.call ++ worker.unchecked
  rw [hunchecked]
  exact h.invoked

theorem Inv.take (hidle : w.worker = .idle) {callback : Callback}
    {rest : List Callback} (hqueue : w.queue = callback :: rest) :
    Inv floats { w with queue := rest, worker := .holding callback } := by
  apply h.moved
  · unfold World.pending
    rw [hidle, hqueue]
    rfl
  · rw [hidle]
    rfl

theorem Inv.begun_cases {callback : Callback} (hmem : callback ∈ w.pending)
    {call : Call} {texts : List TextCallback} (hbegun : w.begun callback = some (call, texts)) :
    call.items = callback.items w.texts ∧ call.Delivers floats ∧
      (∀ t ∈ texts, t.Holds floats) ∧ (∀ c : Callback, c.items texts = c.items w.texts) ∧
      (∀ id, callback = .text id → ∃ t, texts[id]? = some t ∧ t.started = true) ∧
      ∀ id, callback ≠ .text id → texts[id]? = w.texts[id]? := by
  cases callback with
  | text id =>
    obtain ⟨t, ht, heq⟩ := Option.map_eq_some_iff.mp hbegun
    cases heq
    have hlength : id < w.texts.length := (List.getElem?_eq_some_iff.mp ht).choose
    have hholds := h.holds t (List.mem_of_getElem? ht)
    refine ⟨?_, .inr ⟨_, _, hholds.joins, rfl⟩, ?_, ?_, ?_, ?_⟩
    · show t.items = (w.texts[id]?.map TextCallback.items).getD []
      rw [ht]
      rfl
    · intro u hu
      rcases List.mem_or_eq_of_mem_set hu with hu | rfl
      · exact h.holds u hu
      · exact ⟨hholds.joins, hholds.size⟩
    · intro c
      by_cases hc : c = .text id
      · subst hc
        show ((w.texts.set id _)[id]?.map TextCallback.items).getD [] =
          (w.texts[id]?.map TextCallback.items).getD []
        rw [List.getElem?_set_self hlength, ht]
        rfl
      · exact items_set_of_ne hc
    · intro i hi
      cases hi
      exact ⟨_, List.getElem?_set_self hlength, rfl⟩
    · intro i hi
      have hne : id ≠ i := fun heq => hi (by rw [heq])
      exact List.getElem?_set_ne hne
  | notice n handler =>
    cases hbegun
    exact ⟨rfl, .inl ⟨rfl, h.plain n handler hmem⟩, h.holds, fun _ => rfl,
      fun id hid => (by cases hid), fun _ _ => rfl⟩
  | task id =>
    cases hbegun
    exact ⟨rfl, .inl ⟨rfl, rfl⟩, h.holds, fun _ => rfl, fun i hi => (by cases hi),
      fun _ _ => rfl⟩
  | stop => cases hbegun

theorem Inv.run {callback : Callback} (hheld : w.worker = .holding callback)
    {call : Call} {texts : List TextCallback} (hbegun : w.begun callback = some (call, texts)) :
    Inv floats { w with
      texts := texts
      calls := w.calls ++ [call]
      worker := .calling call } := by
  have hpending : w.pending = callback :: w.queue := by
    unfold World.pending
    rw [hheld]
    rfl
  have hmem : callback ∈ w.pending := by
    rw [hpending]
    exact List.mem_cons_self
  have hsub : ∀ c ∈ w.queue, c ∈ w.pending := by
    rw [hpending]
    exact fun c hc => List.mem_cons_of_mem _ hc
  have hapart := h.apart
  rw [hpending] at hapart
  obtain ⟨hfirst, hrest⟩ := List.pairwise_cons.mp hapart
  obtain ⟨hitems, hdelivers, hholds, hsame, hstarted, hother⟩ := h.begun_cases hmem hbegun
  have hline : World.line { w with
      texts := texts
      calls := w.calls ++ [call]
      worker := .calling call } = w.line := by
    show (w.calls ++ [call]).flatMap Call.items ++ w.queue.flatMap (Callback.items texts) = _
    unfold World.line
    rw [hpending, List.flatMap_append, List.flatMap_singleton, List.flatMap_cons, hitems,
      List.append_assoc, flatMap_items_congr fun c _ => hsame c]
  refine ⟨hholds, hrest, ?_, ?_, ?_, h.closing, h.drained, ?_, ?_, ?_, ?_, ?_, h.handled⟩
  · intro id hid
    have hne : callback ≠ .text id := fun heq => hfirst _ hid id heq rfl
    obtain ⟨t, ht, hopen⟩ := h.known id (hsub _ hid)
    exact ⟨t, (hother id hne).trans ht, hopen⟩
  · exact fun n handler hn => h.plain n handler (hsub _ hn)
  · intro id hid
    by_cases heq : callback = .text id
    · exact .inr (hstarted id heq)
    rcases h.last id hid with hlast | ⟨t, ht, htstarted⟩
    · left
      show w.queue.getLast? = some (.text id)
      rw [hpending] at hlast
      cases hqueue : w.queue with
      | nil =>
        rw [hqueue] at hlast
        cases hlast
        exact absurd rfl heq
      | cons c rest =>
        rw [hqueue, List.getLast?_cons_cons] at hlast
        exact hlast
    · exact .inr ⟨t, (hother id heq).trans ht, htstarted⟩
  · exact fun hstop => h.stops (hsub _ hstop)
  · rw [hline]
    exact h.sublist
  · rw [hline]
    exact h.all
  · intro c hc
    rcases List.mem_append.mp hc with hc | hc
    · exact h.delivers c hc
    · rw [List.mem_singleton.mp hc]
      exact hdelivers
  · have hinvoked := h.invoked
    rw [hheld] at hinvoked
    show w.calls ++ [call] = w.invoked.map Invocation.call ++ [call]
    rw [hinvoked]
    exact congrArg (· ++ [call]) (List.append_nil _)

theorem Inv.checked {i : Invocation} (hcalling : w.worker = .calling i.call)
    {worker : Worker} (hheld : worker.held = []) (hunchecked : worker.unchecked = [])
    {handled : List Call}
    (hhandled : handled = ((w.invoked ++ [i]).filter Invocation.current).map Invocation.call) :
    Inv floats { w with invoked := w.invoked ++ [i], handled := handled, worker := worker } := by
  have hpending : World.pending { w with
      invoked := w.invoked ++ [i], handled := handled, worker := worker } = w.pending := by
    unfold World.pending
    rw [hcalling, hheld]
    rfl
  apply h.of_pending hpending rfl rfl rfl rfl h.drained rfl rfl _ hhandled
  have hinvoked := h.invoked
  rw [hcalling] at hinvoked
  show w.calls = (w.invoked ++ [i]).map Invocation.call ++ worker.unchecked
  rw [hinvoked, hunchecked, List.append_nil, List.map_append]
  rfl

theorem Inv.invoke {i : Invocation} (hcalling : w.worker = .calling i.call) :
    Inv floats { w with
      invoked := w.invoked ++ [i]
      handled := if i.current then w.handled ++ [i.call] else w.handled
      worker := if i.current then .handling i.call else .idle } := by
  cases hcurrent : i.current with
  | true =>
    apply h.checked hcalling rfl rfl
    rw [List.filter_append, List.map_append, List.filter_cons_of_pos hcurrent, ← h.handled]
    rfl
  | false =>
    apply h.checked hcalling rfl rfl
    rw [List.filter_append, List.map_append, List.filter_cons_of_neg (by rw [hcurrent]; decide),
      ← h.handled]
    exact (List.append_nil _).symm

theorem Inv.lose {queue : List Callback} {worker : Worker}
    (hsub : (worker.held ++ queue).Sublist w.pending) (hclosing : w.closing = .draining ∨
      w.closing = .stopped) (hunchecked : worker.unchecked = w.worker.unchecked) :
    Inv floats { w with queue := queue, worker := worker } := by
  have hclosed := h.closed_of hclosing
  obtain ⟨htail, hfree⟩ := h.drained hclosing
  have hmem : ∀ c ∈ worker.held ++ queue, c ∈ w.pending := fun c hc => hsub.subset hc
  refine ⟨h.holds, h.apart.sublist hsub, fun id hid => h.known id (hmem _ hid),
    fun n handler hn => h.plain n handler (hmem _ hn), ?_, h.closing, h.drained,
    fun hstop => h.stops (hmem _ hstop), ?_, ?_, h.delivers, ?_, h.handled⟩
  · intro id hid
    have hid : w.submitting.nextTail w.tail = some id := hid
    rw [hfree, htail] at hid
    cases hid
  · have hline : (w.calls.flatMap Call.items ++
        (worker.held ++ queue).flatMap (Callback.items w.texts)).Sublist w.line :=
      (List.Sublist.refl _).append (hsub.flatMap _)
    exact hline.trans h.sublist
  · intro hopen
    rw [show w.closed = false from hopen] at hclosed
    cases hclosed
  · show w.calls = w.invoked.map Invocation.call ++ worker.unchecked
    rw [hunchecked]
    exact h.invoked

theorem Inv.putStop (hclosing : w.closing = .draining ∨ w.closing = .stopped) :
    Inv floats { w with queue := w.queue ++ [.stop], closing := .stopped } := by
  obtain ⟨htail, hfree⟩ := h.drained hclosing
  have hpending : World.pending { w with queue := w.queue ++ [.stop], closing := .stopped } =
      w.pending ++ [.stop] := (List.append_assoc w.worker.held w.queue [.stop]).symm
  have hline : World.line { w with queue := w.queue ++ [.stop], closing := .stopped } = w.line := by
    unfold World.line
    rw [hpending, List.flatMap_append, List.flatMap_singleton]
    show w.calls.flatMap Call.items ++ (w.pending.flatMap (Callback.items w.texts) ++ []) = _
    rw [List.append_nil]
  have hold : ∀ c ∈ w.pending ++ [.stop], c ≠ .stop → c ∈ w.pending := by
    intro c hc hne
    rcases List.mem_append.mp hc with hc | hc
    · exact hc
    · exact absurd (List.mem_singleton.mp hc) hne
  refine ⟨h.holds, ?_, ?_, ?_, ?_, ?_, fun _ => ⟨htail, hfree⟩, fun _ => rfl, ?_, ?_,
    h.delivers, h.invoked, h.handled⟩
  · rw [hpending]
    refine List.pairwise_append.mpr ⟨h.apart, List.pairwise_singleton _ _, ?_⟩
    intro a _ b hb id _ hstop
    rw [List.mem_singleton.mp hb] at hstop
    cases hstop
  · intro id hid
    rw [hpending] at hid
    exact h.known id (hold _ hid fun heq => by cases heq)
  · intro n handler hn
    rw [hpending] at hn
    exact h.plain n handler (hold _ hn fun heq => by cases heq)
  · intro id hid
    have hid : w.submitting.nextTail w.tail = some id := hid
    rw [hfree, htail] at hid
    cases hid
  · exact fun _ => h.closed_of hclosing
  · rw [hline]
    exact h.sublist
  · rw [hline]
    exact h.all

/-- The worker leaves when it gets that callback, and puts it back. -/
theorem Inv.exit (hheld : w.worker = .holding .stop) (full : Prop)
    [Decidable full] : Inv floats { w with
      queue := if full then w.queue else w.queue ++ [.stop]
      worker := .exited } := by
  have hpending : w.pending = .stop :: w.queue := by
    unfold World.pending
    rw [hheld]
    rfl
  have hstopped : w.closing = .stopped := by
    apply h.stops
    rw [hpending]
    exact List.mem_cons_self
  have hleft : Inv floats { w with queue := w.queue, worker := .exited } := by
    apply h.lose _ (.inr hstopped)
    · rw [hheld]
      rfl
    · rw [hpending]
      exact List.sublist_cons_self _ _
  by_cases hfull : full
  · rw [if_pos hfull]
    exact hleft
  rw [if_neg hfull]
  have hput := hleft.putStop (.inr hstopped)
  rw [← hstopped] at hput
  exact hput

theorem Inv.close (hopen : w.closed = false) :
    Inv floats { w with closed := true, closing := .clearing } := by
  have hclosing : w.closing = .open := by
    cases hc : w.closing with
    | «open» => rfl
    | clearing | draining | stopped =>
      have hclosed := h.closing (by rw [hc]; exact fun heq => by cases heq)
      rw [hopen] at hclosed
      cases hclosed
  refine ⟨h.holds, h.apart, h.known, h.plain, h.last, fun _ => rfl, ?_, ?_, h.sublist, ?_,
    h.delivers, h.invoked, h.handled⟩
  · intro hd
    rcases hd with hd | hd
    · cases hd
    · cases hd
  · intro hstop
    have hstopped := h.stops hstop
    rw [hclosing] at hstopped
    cases hstopped
  · exact fun heq => by cases heq

theorem Inv.clearTail (hclearing : w.closing = .clearing)
    (hfree : w.submitting = .free) : Inv floats { w with tail := none, closing := .draining } := by
  refine ⟨h.holds, h.apart, h.known, h.plain, ?_, ?_, fun _ => ⟨rfl, hfree⟩, ?_, h.sublist, h.all,
    h.delivers, h.invoked, h.handled⟩
  · intro id hid
    have hid : w.submitting.nextTail none = some id := hid
    rw [hfree] at hid
    cases hid
  · intro _
    apply h.closing
    rw [hclearing]
    exact fun heq => by cases heq
  · intro hstop
    have hstopped := h.stops hstop
    rw [hclearing] at hstopped
    cases hstopped

end

/-! ## Runs -/

theorem inv_next {a : Action} (h : w.Inv floats) (hs : next floats queued w a = some w') :
    w'.Inv floats := by
  cases a with
  | register method handler =>
    cases hs
    exact h.of_pending rfl rfl rfl rfl rfl h.drained rfl rfl h.invoked h.handled
  | spawn =>
    cases hs
    exact h.of_pending rfl rfl rfl rfl rfl h.drained rfl rfl h.invoked h.handled
  | dispatch =>
    cases hs
    exact h.of_pending rfl rfl rfl rfl rfl h.drained rfl rfl h.invoked h.handled
  | fail generation =>
    cases hs
    exact h.failGeneration generation
  | route n =>
    obtain ⟨handler, _, rfl⟩ := Option.map_eq_some_iff.mp hs
    exact h.of_pending rfl rfl rfl rfl rfl h.drained rfl rfl h.invoked h.handled
  | offer id =>
    cases hs
    exact h.of_pending rfl rfl rfl rfl rfl h.drained rfl rfl h.invoked h.handled
  | enter k =>
    obtain ⟨hfree, hs⟩ := Option.ite_none_right_eq_some.mp hs
    obtain ⟨item, _, rfl⟩ := Option.map_eq_some_iff.mp hs
    split
    · exact h.of_pending rfl rfl rfl rfl rfl h.drained rfl rfl h.invoked h.handled
    rename_i hopen
    have hbusy : ¬ (w.closing = .draining ∨ w.closing = .stopped) := 
      fun hclosing => hopen (h.closed_of hclosing)
    have hnext : w.tail = w.submitting.nextTail w.tail := by
      rw [hfree]
      rfl
    exact h.of_pending rfl rfl hnext rfl rfl (fun hd => absurd hd hbusy) rfl rfl h.invoked
      h.handled
  | coalesce =>
    dsimp only [next] at hs
    split at hs
    · rename_i item hsubmitting
      split at hs
      · rename_i id t hc
        cases hs
        exact h.coalesce hsubmitting hc
      cases hs
      have hbusy : w.submitting ≠ .free := by
        rw [hsubmitting]
        exact fun heq => by cases heq
      exact h.submitting (h.not_draining hbusy) (by rw [hsubmitting]; rfl)
    · cases hs
  | room =>
    dsimp only [next] at hs
    split at hs
    · rename_i item hsubmitting
      have hbusy : w.submitting ≠ .free := by
        rw [hsubmitting]
        exact fun heq => by cases heq
      have hnext : w.tail = w.submitting.nextTail w.tail := by
        rw [hsubmitting]
        rfl
      split at hs
      · cases hs
        exact h.of_pending rfl rfl hnext rfl rfl (fun hd => absurd hd (h.not_draining hbusy)) rfl
          rfl h.invoked h.handled
      · cases hs
        exact h.submitting (h.not_draining hbusy) hnext
    · cases hs
  | put =>
    dsimp only [next] at hs
    split at hs
    · rename_i item hsubmitting
      split at hs
      · cases hs
        have hbusy : w.submitting ≠ .free := by
          rw [hsubmitting]
          exact fun heq => by cases heq
        have hnext : w.tail = w.submitting.nextTail w.tail := by
          rw [hsubmitting]
          rfl
        exact h.of_pending rfl rfl hnext rfl rfl (fun hd => absurd hd (h.not_draining hbusy)) rfl
          rfl h.invoked h.handled
      · cases hs
        exact h.put hsubmitting
    · cases hs
  | settle =>
    dsimp only [next] at hs
    split at hs
    · rename_i id hsubmitting
      cases hs
      have hbusy : w.submitting ≠ .free := by
        rw [hsubmitting]
        exact fun heq => by cases heq
      exact h.submitting (h.not_draining hbusy) (by rw [hsubmitting]; rfl)
    · rename_i callback hother hsubmitting
      cases hs
      have hbusy : w.submitting ≠ .free := by
        rw [hsubmitting]
        exact fun heq => by cases heq
      apply h.submitting (h.not_draining hbusy)
      rw [hsubmitting]
      cases callback with
      | text id => exact absurd rfl (hother id)
      | notice | task | stop => rfl
    · cases hs
  | overload k =>
    obtain ⟨item, _, rfl⟩ := Option.map_eq_some_iff.mp hs
    have hleft : Inv floats { w with refused := w.refused.eraseIdx k } :=
      h.of_pending rfl rfl rfl rfl rfl h.drained rfl rfl h.invoked h.handled
    cases item with
    | notice n handler => exact hleft.failGeneration n.generation
    | task id => exact hleft
  | start =>
    obtain ⟨hworker, hs⟩ := Option.ite_none_right_eq_some.mp hs
    cases hs
    apply h.moved
    · unfold World.pending
      rw [hworker]
      rfl
    · rw [hworker]
      rfl
  | take =>
    obtain ⟨hidle, hs⟩ := Option.ite_none_right_eq_some.mp hs
    split at hs
    · rename_i callback rest hqueue
      cases hs
      exact h.take hidle hqueue
    · cases hs
  | run =>
    dsimp only [next] at hs
    split at hs
    · rename_i hheld
      cases hs
      exact h.exit hheld (queued + completionReserve ≤ w.queue.length)
    · rename_i callback _ hheld
      obtain ⟨⟨call, texts⟩, hbegun, rfl⟩ := Option.map_eq_some_iff.mp hs
      exact h.run hheld hbegun
    · cases hs
  | invoke =>
    dsimp only [next] at hs
    split at hs
    · rename_i call hcalling
      cases hs
      exact h.invoke (i := ⟨call, w.generation, w.dispatchGeneration⟩) hcalling
    · cases hs
  | finish raised =>
    dsimp only [next] at hs
    split at hs
    · rename_i items n handler hhandling
      cases hs
      have hidle : Inv floats { w with worker := .idle } := by
        apply h.moved
        · unfold World.pending
          rw [hhandling]
          rfl
        · rw [hhandling]
          rfl
      split
      · exact hidle.failGeneration n.generation
      · exact hidle
    · rename_i items id hhandling
      cases hs
      apply h.moved
      · unfold World.pending
        rw [hhandling]
        rfl
      · rw [hhandling]
        rfl
    · cases hs
  | close =>
    obtain ⟨⟨_, hopen⟩, hs⟩ := Option.ite_none_right_eq_some.mp hs
    cases hs
    exact h.close hopen
  | clearTail =>
    obtain ⟨⟨hclearing, hfree⟩, hs⟩ := Option.ite_none_right_eq_some.mp hs
    cases hs
    exact h.clearTail hclearing hfree
  | drain =>
    obtain ⟨hdraining, hs⟩ := Option.ite_none_right_eq_some.mp hs
    split at hs
    · rename_i callback rest hqueue
      cases hs
      apply h.lose _ (.inl hdraining) rfl
      unfold World.pending
      rw [hqueue]
      exact (List.Sublist.refl _).append (List.sublist_cons_self _ _)
    · cases hs
  | stop =>
    obtain ⟨⟨hdraining, hempty⟩, hs⟩ := Option.ite_none_right_eq_some.mp hs
    cases hs
    have hput := h.putStop (.inl hdraining)
    rw [hempty] at hput
    exact hput

theorem inv_exec {as : List Action} (h : exec (next floats queued) initial as = some w) :
    w.Inv floats :=
  invariant (fun _ _ _ hi hs => inv_next hi hs) inv_initial h

def Grows (w w' : World) : Prop :=
  w.accepted <+: w'.accepted ∧ w.calls <+: w'.calls ∧ w.handled <+: w'.handled

theorem Grows.refl (w : World) : w.Grows w :=
  ⟨List.prefix_refl _, List.prefix_refl _, List.prefix_refl _⟩

theorem Grows.trans {u : World} (h : w.Grows w') (h' : w'.Grows u) : w.Grows u :=
  ⟨h.1.trans h'.1, h.2.1.trans h'.2.1, h.2.2.trans h'.2.2⟩

theorem grows_failGeneration (w : World) (generation : Nat) :
    w.Grows (w.failGeneration generation) := by
  unfold World.failGeneration
  split
  · exact Grows.refl w
  split
  · exact Grows.refl w
  · exact Grows.refl w

theorem grows_next {a : Action} (hs : next floats queued w a = some w') : w.Grows w' := by
  cases a with
  | register | spawn | dispatch | offer =>
    cases hs
    exact Grows.refl w
  | fail generation =>
    cases hs
    exact grows_failGeneration w generation
  | route n =>
    obtain ⟨handler, _, rfl⟩ := Option.map_eq_some_iff.mp hs
    exact Grows.refl w
  | enter k =>
    obtain ⟨_, hs⟩ := Option.ite_none_right_eq_some.mp hs
    obtain ⟨item, _, rfl⟩ := Option.map_eq_some_iff.mp hs
    split
    · exact Grows.refl w
    · exact Grows.refl w
  | coalesce =>
    dsimp only [next] at hs
    split at hs
    · split at hs
      · cases hs
        exact ⟨List.prefix_append _ _, List.prefix_refl _, List.prefix_refl _⟩
      · cases hs
        exact Grows.refl w
    · cases hs
  | room =>
    dsimp only [next] at hs
    split at hs
    · split at hs
      · cases hs
        exact Grows.refl w
      · cases hs
        exact Grows.refl w
    · cases hs
  | put =>
    dsimp only [next] at hs
    split at hs
    · split at hs
      · cases hs
        exact Grows.refl w
      · cases hs
        exact ⟨List.prefix_append _ _, List.prefix_refl _, List.prefix_refl _⟩
    · cases hs
  | settle =>
    dsimp only [next] at hs
    split at hs
    · cases hs
      exact Grows.refl w
    · cases hs
      exact Grows.refl w
    · cases hs
  | overload k =>
    obtain ⟨item, _, rfl⟩ := Option.map_eq_some_iff.mp hs
    cases item with
    | notice n handler =>
      have hleft : w.Grows { w with refused := w.refused.eraseIdx k } := Grows.refl w
      exact hleft.trans (grows_failGeneration _ n.generation)
    | task id => exact Grows.refl w
  | start | close | clearTail | stop =>
    obtain ⟨_, hs⟩ := Option.ite_none_right_eq_some.mp hs
    cases hs
    exact Grows.refl w
  | take | drain =>
    obtain ⟨_, hs⟩ := Option.ite_none_right_eq_some.mp hs
    split at hs
    · cases hs
      exact Grows.refl w
    · cases hs
  | run =>
    dsimp only [next] at hs
    split at hs
    · cases hs
      exact Grows.refl w
    · obtain ⟨begun, _, rfl⟩ := Option.map_eq_some_iff.mp hs
      exact ⟨List.prefix_refl _, List.prefix_append _ _, List.prefix_refl _⟩
    · cases hs
  | invoke =>
    dsimp only [next] at hs
    split at hs
    · cases hs
      refine ⟨List.prefix_refl _, List.prefix_refl _, ?_⟩
      show w.handled <+: if _ then w.handled ++ _ else w.handled
      split
      · exact List.prefix_append _ _
      · exact List.prefix_refl _
    · cases hs
  | finish raised =>
    dsimp only [next] at hs
    split at hs
    · cases hs
      split
      · have hleft : w.Grows { w with worker := .idle } := Grows.refl w
        exact hleft.trans (grows_failGeneration _ _)
      · exact Grows.refl w
    · cases hs
      exact Grows.refl w
    · cases hs

theorem grows_exec {as : List Action} (h : exec (next floats queued) w as = some w') : w.Grows w' :=
  invariant (I := fun u => w.Grows u) (fun _ _ _ hg hs => hg.trans (grows_next hs)) (Grows.refl w) h

/-- The worker's calls are the accepted submissions in order, and handled are those that are
current when they are checked. -/
structure Refines (floats : Json → Json → Bool) (w : World) : Prop where
  /-- Nothing is called twice or out of order. -/
  sublist : w.line.Sublist w.accepted
  /-- Nothing is lost before the dispatcher is closed. -/
  all : w.closed = false → w.line = w.accepted
  delivers : ∀ c ∈ w.calls, c.Delivers floats
  invoked : w.calls = w.invoked.map Invocation.call ++ w.worker.unchecked
  handled : w.handled = (w.invoked.filter Invocation.current).map Invocation.call

/-- Joining refines delivery one by one, and a group that was called never changes. -/
theorem calls_refine {as : List Action} (h : exec (next floats queued) initial as = some w) :
    w.Refines floats ∧ ∀ bs w', exec (next floats queued) w bs = some w' → w.Grows w' := by
  have hinv := inv_exec h
  exact ⟨⟨hinv.sublist, hinv.all, hinv.delivers, hinv.invoked, hinv.handled⟩,
    fun _ _ hbs => grows_exec hbs⟩

def sampleDelta (text : String) : Notification :=
  ⟨"item/agentMessage/delta", .obj [("itemId", .str "item-1"), ("delta", .str text)], 1⟩

def submitSteps : List Action := [.enter 0, .coalesce, .room, .put, .settle]

def joinedRun : List Action :=
  [.register "item/agentMessage/delta" 7, .spawn, .dispatch, .start,
    .route (sampleDelta "Hel"), .route (sampleDelta "lo")] ++ submitSteps ++
    [.enter 0, .coalesce, .take, .run, .invoke]

theorem calls_refine_joined :
    ((exec (next (fun _ _ => false) 8) initial joinedRun).any fun w =>
      w.accepted.length = 2 ∧ w.handled.map Call.body =
        [.notice ((Delta.mk "item/agentMessage/delta" 1 7 "delta"
          [("itemId", .str "item-1")] "Hel").notification "Hello") 7]) = true ∧
      ∀ w, exec (next (fun _ _ => false) 8) initial joinedRun = some w →
        w.Refines (fun _ _ => false) ∧
          ∀ bs w', exec (next (fun _ _ => false) 8) w bs = some w' → w.Grows w' :=
  ⟨by decide +kernel, fun _ h => calls_refine h⟩

def staleRun : List Action :=
  [.register "item/agentMessage/delta" 7, .spawn, .dispatch, .start,
    .route (sampleDelta "Hello")] ++ submitSteps ++ [.fail 1, .take, .run, .invoke]

/-- A delta that was accepted need not reach its handler. -/
theorem handled_not_accepted : ¬ ∀ (floats : Json → Json → Bool) (queued : Nat)
    (as : List Action) (w : World), exec (next floats queued) initial as = some w →
      w.closed = false → w.pending = [] → w.worker = .idle →
        w.handled.flatMap Call.items = w.accepted := by
  intro hall
  have hrun : (exec (next (fun _ _ => false) 8) initial staleRun).any (fun w =>
      w.closed = false ∧ w.pending = [] ∧ w.worker = .idle ∧
        w.handled.flatMap Call.items ≠ w.accepted) = true := by
    decide +kernel
  obtain ⟨w, hw, hend⟩ := (Option.any_eq_true _ _).mp hrun
  obtain ⟨hopen, hpending, hidle, hne⟩ := of_decide_eq_true hend
  exact hne (hall _ 8 staleRun w hw hopen hpending hidle)

end World

end CodexBridge.AppServer.Callbacks
