import Mathlib.Data.List.Induction
import Zub1cg.Firmware.Gem2.Frames
import Zub1cg.Firmware.Gem2.Receive

/-!
# What the driver's ARP cache holds

The cache has four places. The second, third and fourth address ever seen keep theirs for good;
all the others share the first place, where the latest of them is.

## Main definitions

- `settled` — the addresses that keep their place
- `remembered` — what the cache knows, from the messages alone

## Main results

- `arpLookup_learned` — the cache is that
- `Link.run_informed` — and it is fed by the messages handed to NetX
- `Link.run_destination` — where a request for an IPv4 address goes
-/

namespace Gem2

/-! ### What the cache holds -/

def learned (es : List ArpEntry) : ArpCache := es.foldl arpLearn ArpCache.empty

/-- The addresses, each where it was first seen. -/
def arrivals (es : List ArpEntry) : List UInt32 := (es.map ArpEntry.ip).eraseDups

def settled (es : List ArpEntry) : List UInt32 := ((arrivals es).take GEM2_ARP_CACHE_SIZE).drop 1

/-- The last entry that satisfies `p`. -/
def latest (es : List ArpEntry) (p : ArpEntry → Bool) : Option ArpEntry := es.reverse.find? p

/-- What is known of an address: its latest message if it is settled, and otherwise the latest
message of all the addresses that are not, if it is from this one. -/
def remembered (es : List ArpEntry) (ip : UInt32) : Option ArpEntry :=
  if ip ∈ settled es then latest es (·.ip = ip)
  else (latest es (·.ip ∉ settled es)).filter (·.ip = ip)

/-- The latest messages of some addresses. -/
def latestOf (es : List ArpEntry) (ips : List UInt32) : List ArpEntry :=
  ips.filterMap fun ip => latest es (·.ip = ip)

/-- The places of the cache. -/
def places (es : List ArpEntry) : List ArpEntry :=
  (latest es (·.ip ∉ settled es)).toList ++ latestOf es (settled es)

theorem latest_concat (es : List ArpEntry) (e : ArpEntry) (p : ArpEntry → Bool) :
    latest (es ++ [e]) p = if p e then some e else latest es p := by
  rw [latest, List.reverse_append, List.reverse_singleton, List.singleton_append,
    List.find?_cons]
  cases p e <;> rfl

theorem latest_mem {es : List ArpEntry} {p : ArpEntry → Bool} {e : ArpEntry}
    (h : latest es p = some e) : p e ∧ e ∈ es :=
  ⟨List.find?_some h, List.mem_reverse.mp (List.mem_of_find?_eq_some h)⟩

theorem latest_congr {es : List ArpEntry} {p q : ArpEntry → Bool} (h : ∀ e ∈ es, p e = q e) :
    latest es p = latest es q := by
  induction es using List.reverseRecOn with
  | nil => rfl
  | append_singleton es e ih =>
    rw [latest_concat, latest_concat, h e (by simp), ih]
    intro e' he'
    exact h e' (List.mem_append_left _ he')

theorem latest_isSome {es : List ArpEntry} {p : ArpEntry → Bool} {e : ArpEntry} (he : e ∈ es)
    (hp : p e) : ∃ x, latest es p = some x := by
  rw [← Option.isSome_iff_exists, latest, List.find?_isSome]
  exact ⟨e, List.mem_reverse.mpr he, hp⟩

theorem arrivals_concat (es : List ArpEntry) (e : ArpEntry) :
    arrivals (es ++ [e]) = if e.ip ∈ es.map ArpEntry.ip then arrivals es
      else arrivals es ++ [e.ip] := by
  rw [arrivals, List.map_append, List.map_singleton, List.eraseDups_append, arrivals]
  by_cases hseen : e.ip ∈ es.map ArpEntry.ip
  · have hnone : List.removeAll [e.ip] (es.map ArpEntry.ip) = [] := by
      simp [List.removeAll, List.mem_map.mp hseen]
    rw [if_pos hseen, hnone, List.eraseDups_nil, List.append_nil]
  · have hone : List.removeAll [e.ip] (es.map ArpEntry.ip) = [e.ip] := by
      simpa [List.removeAll] using hseen
    rw [if_neg hseen, hone]
    rfl

theorem mem_arrivals {es : List ArpEntry} {ip : UInt32} :
    ip ∈ arrivals es ↔ ip ∈ es.map ArpEntry.ip := List.mem_eraseDups

theorem arrivals_nodup (es : List ArpEntry) : (arrivals es).Nodup := by
  induction es using List.reverseRecOn with
  | nil => exact List.nodup_nil
  | append_singleton es e ih =>
    rw [arrivals_concat]
    split
    · exact ih
    · next hnew =>
      rw [← List.concat_eq_append]
      exact ih.concat (mt mem_arrivals.mp hnew)

theorem settled_subset {es : List ArpEntry} {ip : UInt32} (h : ip ∈ settled es) :
    ip ∈ es.map ArpEntry.ip :=
  mem_arrivals.mp (List.mem_of_mem_take (List.mem_of_mem_drop h))

theorem settled_nodup (es : List ArpEntry) : (settled es).Nodup :=
  ((arrivals_nodup es).sublist (List.take_sublist _ _)).sublist (List.drop_sublist _ _)

theorem latestOf_append (es : List ArpEntry) (ips ips' : List UInt32) :
    latestOf es (ips ++ ips') = latestOf es ips ++ latestOf es ips' := List.filterMap_append

theorem latestOf_cons {es : List ArpEntry} {ip : UInt32} (ips : List UInt32) {x : ArpEntry}
    (h : latest es (·.ip = ip) = some x) : latestOf es (ip :: ips) = x :: latestOf es ips := by
  change List.filterMap (fun ip => latest es (·.ip = ip)) (ip :: ips) = _
  exact List.filterMap_cons_some h

theorem latestOf_map_ip {es : List ArpEntry} {ips : List UInt32}
    (hips : ∀ ip ∈ ips, ip ∈ es.map ArpEntry.ip) : (latestOf es ips).map ArpEntry.ip = ips := by
  induction ips with
  | nil => rfl
  | cons ip ips ih =>
    obtain ⟨e, he, hip⟩ := List.mem_map.mp (hips ip List.mem_cons_self)
    obtain ⟨x, hx⟩ := latest_isSome (p := (·.ip = ip)) he (decide_eq_true hip)
    have hsame : x.ip = ip := of_decide_eq_true (latest_mem hx).1
    rw [latestOf_cons ips hx, List.map_cons, hsame,
      ih fun ip' hip' => hips ip' (List.mem_cons_of_mem _ hip')]

theorem latestOf_concat_of_notMem {es : List ArpEntry} {e : ArpEntry} {ips : List UInt32}
    (h : e.ip ∉ ips) : latestOf (es ++ [e]) ips = latestOf es ips := by
  apply List.filterMap_congr
  intro ip hip
  have hne : e.ip ≠ ip := fun hsame => h (hsame ▸ hip)
  rw [latest_concat, decide_eq_false hne]
  rfl

/-- The loop that looks for the address finds it among the latest messages. -/
theorem refresh_latestOf {es : List ArpEntry} {e : ArpEntry} {ips : List UInt32}
    (hips : ∀ ip ∈ ips, ip ∈ es.map ArpEntry.ip) (hnodup : ips.Nodup) (h : e.ip ∈ ips) :
    refresh e (latestOf es ips) = some (latestOf (es ++ [e]) ips) := by
  induction ips with
  | nil => contradiction
  | cons ip ips ih =>
    obtain ⟨e', he', hip⟩ := List.mem_map.mp (hips ip List.mem_cons_self)
    obtain ⟨x, hx⟩ := latest_isSome (p := (·.ip = ip)) he' (decide_eq_true hip)
    have hsame : x.ip = ip := of_decide_eq_true (latest_mem hx).1
    obtain ⟨hfresh, hrest⟩ := List.nodup_cons.mp hnodup
    rw [latestOf_cons ips hx, refresh]
    by_cases heq : e.ip = ip
    · have hlast : latest (es ++ [e]) (·.ip = ip) = some e := by
        rw [latest_concat, decide_eq_true heq]
        rfl
      rw [if_pos (hsame.trans heq.symm), latestOf_cons ips hlast,
        latestOf_concat_of_notMem (heq ▸ hfresh)]
    · have hlast : latest (es ++ [e]) (·.ip = ip) = some x := by
        rw [latest_concat, decide_eq_false heq]
        exact hx
      have hin : e.ip ∈ ips := (List.mem_cons.mp h).resolve_left heq
      have hfound := ih (fun ip' hip' => hips ip' (List.mem_cons_of_mem _ hip')) hrest hin
      rw [if_neg (fun hx' => heq (hx'.symm.trans hsame)), latestOf_cons ips hlast, hfound]
      rfl

theorem learnEntries_of_refresh {e : ArpEntry} {entries updated : List ArpEntry}
    (h : refresh e entries = some updated) : learnEntries e entries = updated := by
  rw [learnEntries, h]

theorem learnEntries_of_new {e : ArpEntry} {entries : List ArpEntry}
    (h : e.ip ∉ entries.map ArpEntry.ip) : learnEntries e entries =
      if entries.length < GEM2_ARP_CACHE_SIZE then entries ++ [e] else entries.set 0 e := by
  rw [learnEntries, refresh_eq_none.mpr h]

section

variable {es : List ArpEntry} {first : UInt32} {others : List UInt32}

theorem settled_eq (h : arrivals es = first :: others) : settled es = others.take 3 := by
  rw [settled, h]
  rfl

theorem mem_ips (h : arrivals es = first :: others) {ip : UInt32} :
    ip ∈ es.map ArpEntry.ip ↔ ip = first ∨ ip ∈ others := by
  rw [← mem_arrivals, h, List.mem_cons]

/-- There is always an entry that is not settled: the first address is not. -/
theorem exists_newest (h : arrivals es = first :: others) :
    ∃ n, latest es (·.ip ∉ settled es) = some n := by
  obtain ⟨e, he, hip⟩ := List.mem_map.mp ((mem_ips h).mpr (.inl rfl))
  apply latest_isSome he
  have hnodup := h ▸ arrivals_nodup es
  have hfirst : first ∉ settled es := by
    rw [settled_eq h]
    exact mt List.mem_of_mem_take (List.nodup_cons.mp hnodup).1
  rw [hip]
  exact decide_eq_true hfirst

/-- As long as there are at most four addresses, only the first is not settled. -/
theorem eq_first (h : arrivals es = first :: others) (hfew : others.length ≤ 3) {ip : UInt32}
    (hip : ip ∈ es.map ArpEntry.ip) (hout : ip ∉ settled es) : ip = first := by
  rw [settled_eq h, List.take_of_length_le hfew] at hout
  exact ((mem_ips h).mp hip).resolve_right hout

theorem settled_concat_of_mem {e : ArpEntry} (h : e.ip ∈ es.map ArpEntry.ip) :
    settled (es ++ [e]) = settled es := by
  rw [settled, arrivals_concat, if_pos h, settled]

theorem settled_concat_of_notMem (h : arrivals es = first :: others) {e : ArpEntry}
    (hnew : e.ip ∉ es.map ArpEntry.ip) : settled (es ++ [e]) =
      if others.length < 3 then settled es ++ [e.ip] else settled es := by
  rw [settled_eq h, settled, arrivals_concat, if_neg hnew, h]
  change (others ++ [e.ip]).take 3 = _
  split
  · next hfew =>
    rw [List.take_of_length_le (by rw [List.length_append]; exact hfew),
      List.take_of_length_le (Nat.le_of_lt hfew)]
  · next hmany => rw [List.take_append_of_le_length (Nat.le_of_not_lt hmany)]

theorem places_eq {n : ArpEntry} (hn : latest es (·.ip ∉ settled es) = some n) :
    places es = n :: latestOf es (settled es) := by
  rw [places, hn]
  rfl

theorem places_map_ip {n : ArpEntry} (hn : latest es (·.ip ∉ settled es) = some n) :
    (places es).map ArpEntry.ip = n.ip :: settled es := by
  rw [places_eq hn, List.map_cons, latestOf_map_ip fun ip => settled_subset]

theorem places_length (h : arrivals es = first :: others) :
    (places es).length = (others.take 3).length + 1 := by
  obtain ⟨n, hn⟩ := exists_newest h
  rw [← List.length_map (f := ArpEntry.ip), places_map_ip hn, settled_eq h]
  rfl

/-- A settled address keeps its place. -/
theorem learnEntries_settled (h : arrivals es = first :: others) {e : ArpEntry}
    (hin : e.ip ∈ settled es) : learnEntries e (places es) = places (es ++ [e]) := by
  obtain ⟨n, hn⟩ := exists_newest h
  have hout : n.ip ∉ settled es := of_decide_eq_true (latest_mem hn).1
  have hne : n.ip ≠ e.ip := fun hsame => hout (hsame.symm ▸ hin)
  have hfound : refresh e (places es) = some (n :: latestOf (es ++ [e]) (settled es)) := by
    rw [places_eq hn, refresh, if_neg hne,
      refresh_latestOf (fun ip => settled_subset) (settled_nodup es) hin]
    rfl
  have hstill : latest (es ++ [e]) (·.ip ∉ settled es) = some n := by
    rw [latest_concat, decide_eq_false (not_not.mpr hin), if_neg Bool.false_ne_true, hn]
  rw [learnEntries_of_refresh hfound, places, settled_concat_of_mem (settled_subset hin), hstill]
  rfl

theorem places_concat {e : ArpEntry} (hin : e.ip ∉ settled es)
    (hsame : settled (es ++ [e]) = settled es) :
    places (es ++ [e]) = e :: latestOf es (settled es) := by
  have hlatest : latest (es ++ [e]) (·.ip ∉ settled es) = some e := by
    rw [latest_concat, decide_eq_true hin]
    rfl
  rw [places, hsame, hlatest, latestOf_concat_of_notMem hin]
  rfl

/-- An address that has lost its place, or still has the first one, takes that. -/
theorem learnEntries_seen (h : arrivals es = first :: others) {e : ArpEntry}
    (hin : e.ip ∉ settled es) (hseen : e.ip ∈ es.map ArpEntry.ip) :
    learnEntries e (places es) = places (es ++ [e]) := by
  obtain ⟨n, hn⟩ := exists_newest h
  rw [places_concat hin (settled_concat_of_mem hseen)]
  by_cases hsame : n.ip = e.ip
  · apply learnEntries_of_refresh
    rw [places_eq hn, refresh, if_pos hsame]
  · have hnew : e.ip ∉ (places es).map ArpEntry.ip := by
      rw [places_map_ip hn, List.mem_cons, not_or]
      exact ⟨Ne.symm hsame, hin⟩
    -- with four addresses or fewer both would be the first one
    have hmany : ¬ others.length ≤ 3 := by
      intro hfew
      have hout : n.ip ∉ settled es := of_decide_eq_true (latest_mem hn).1
      have hn' := eq_first h hfew (List.mem_map_of_mem (latest_mem hn).2) hout
      exact hsame (hn'.trans (eq_first h hfew hseen hin).symm)
    have hfull : ¬ (others.take 3).length + 1 < GEM2_ARP_CACHE_SIZE := by
      rw [List.length_take, Nat.min_eq_left (Nat.le_of_not_le hmany)]
      decide
    rw [learnEntries_of_new hnew, places_length h, if_neg hfull, places_eq hn]
    rfl

/-- A new address gets a place of its own, or the first one when there is none. -/
theorem learnEntries_new (h : arrivals es = first :: others) {e : ArpEntry}
    (hnew : e.ip ∉ es.map ArpEntry.ip) : learnEntries e (places es) = places (es ++ [e]) := by
  obtain ⟨n, hn⟩ := exists_newest h
  have hin : e.ip ∉ settled es := mt settled_subset hnew
  have habsent : e.ip ∉ (places es).map ArpEntry.ip := by
    rw [places_map_ip hn, List.mem_cons, not_or]
    exact ⟨fun hsame => hnew (hsame ▸ List.mem_map_of_mem (latest_mem hn).2), hin⟩
  have hsettled := settled_concat_of_notMem h hnew
  rw [learnEntries_of_new habsent, places_length h, List.length_take]
  by_cases hfew : others.length < 3
  · rw [if_pos hfew] at hsettled
    have hroom : min 3 others.length + 1 < GEM2_ARP_CACHE_SIZE := by
      rw [Nat.min_eq_right (Nat.le_of_lt hfew)]
      exact Nat.succ_lt_succ hfew
    have hstill : latest (es ++ [e]) (·.ip ∉ settled es ++ [e.ip]) = some n := by
      rw [latest_concat, decide_eq_false (by simp), if_neg Bool.false_ne_true, ← hn]
      apply latest_congr
      intro x hx
      have hne : x.ip ≠ e.ip := fun h => hnew (h ▸ List.mem_map_of_mem hx)
      simp [hne]
    have hlast : latest (es ++ [e]) (·.ip = e.ip) = some e := by
      rw [latest_concat, decide_eq_true rfl]
      rfl
    rw [if_pos hroom, places_eq hn, places, hsettled, hstill, latestOf_append,
      latestOf_concat_of_notMem hin, latestOf_cons [] hlast]
    rfl
  · rw [if_neg hfew] at hsettled
    have hfull : ¬ min 3 others.length + 1 < GEM2_ARP_CACHE_SIZE := by
      rw [Nat.min_eq_left (Nat.le_of_not_lt hfew)]
      decide
    rw [if_neg hfull, places_eq hn, places_concat hin hsettled]
    rfl

end

/-- The entries, place by place. -/
theorem learned_entries (es : List ArpEntry) : (learned es).entries = places es := by
  induction es using List.reverseRecOn with
  | nil => rfl
  | append_singleton es e ih =>
    have hlearn : (learned (es ++ [e])).entries = learnEntries e (learned es).entries := by
      rw [learned, List.foldl_append]
      rfl
    rw [hlearn, ih]
    cases h : arrivals es with
    | nil =>
      have hes : es = [] := by
        apply List.eq_nil_iff_forall_not_mem.mpr
        intro x hx
        have hmem := mem_arrivals.mpr (List.mem_map_of_mem (f := ArpEntry.ip) hx)
        rw [h] at hmem
        contradiction
      rw [hes]
      rfl
    | cons first others =>
      by_cases hin : e.ip ∈ settled es
      · exact learnEntries_settled h hin
      · by_cases hseen : e.ip ∈ es.map ArpEntry.ip
        · exact learnEntries_seen h hin hseen
        · exact learnEntries_new h hseen

theorem find?_latestOf {es : List ArpEntry} {ips : List UInt32}
    (hips : ∀ ip ∈ ips, ip ∈ es.map ArpEntry.ip) {ip : UInt32} (h : ip ∈ ips) :
    (latestOf es ips).find? (·.ip = ip) = latest es (·.ip = ip) := by
  induction ips with
  | nil => contradiction
  | cons ip' ips ih =>
    obtain ⟨e, he, hip⟩ := List.mem_map.mp (hips ip' List.mem_cons_self)
    obtain ⟨x, hx⟩ := latest_isSome (p := (·.ip = ip')) he (decide_eq_true hip)
    have hsame : x.ip = ip' := of_decide_eq_true (latest_mem hx).1
    rw [latestOf_cons ips hx, List.find?_cons]
    by_cases heq : ip' = ip
    · rw [decide_eq_true (hsame.trans heq), ← heq, hx]
    · rw [decide_eq_false (fun hx' => heq (hsame.symm.trans hx'))]
      exact ih (fun ip hip => hips ip (List.mem_cons_of_mem _ hip))
        ((List.mem_cons.mp h).resolve_left (Ne.symm heq))

/-- What the cache answers follows from the messages. -/
theorem arpLookup_learned (es : List ArpEntry) (ip : UInt32) :
    arpLookup (learned es) ip = (remembered es ip).map fun e => (e.msw, e.lsw) := by
  rw [arpLookup, learned_entries, places, List.find?_append, remembered]
  congr 1
  by_cases hin : ip ∈ settled es
  · rw [if_pos hin, find?_latestOf (fun ip => settled_subset) hin]
    cases hn : latest es (·.ip ∉ settled es) with
    | none => rfl
    | some n =>
      have hne : n.ip ≠ ip := fun h => of_decide_eq_true (latest_mem hn).1 (h.symm ▸ hin)
      rw [Option.toList_some, List.find?_singleton, decide_eq_false hne]
      rfl
  · have hrest : (latestOf es (settled es)).find? (·.ip = ip) = none := by
      apply List.find?_eq_none.mpr
      intro x hx heq
      apply hin
      have hmem := List.mem_map_of_mem (f := ArpEntry.ip) hx
      rw [latestOf_map_ip fun ip => settled_subset] at hmem
      exact of_decide_eq_true heq ▸ hmem
    rw [if_neg hin, hrest, Option.or_none]
    cases latest es (·.ip ∉ settled es) with
    | none => rfl
    | some n =>
      rw [Option.toList_some, List.find?_singleton, Option.filter_some]

/-! ### What feeds it -/

/-- The message the driver learns from. -/
def taught (d : Delivery) : Option ArpEntry :=
  if d.route = .arp ∧ 28 ≤ d.length ∧ (arpSender d.data).ip ≠ 0 then some (arpSender d.data)
  else none

theorem learnFrom_eq (es : List ArpEntry) (d : Delivery) :
    learnFrom (learned es) d = learned (es ++ (taught d).toList) := by
  rw [learnFrom, taught]
  split
  · rw [learned, learned, Option.toList_some, List.foldl_append]
    rfl
  · rw [Option.toList_none, List.append_nil]

namespace RxRing

/-- The cache knows the messages in the packets handed over, and no others. -/
def Informed (s : RxRing) : Prop := s.arp = learned (s.handed.filterMap taught)

variable {s : RxRing}

theorem Informed.takeFrame (h : s.Informed) (slot : ℕ) : (s.takeFrame slot).Informed := by
  rw [RxRing.takeFrame]
  cases s.pkt slot with
  | none => exact h
  | some number =>
    dsimp only
    rw [Informed, List.filterMap_append, h, learnFrom_eq]
    congr 2

theorem Informed.alloc (h : s.Informed) {slot : ℕ} {answer : Option (List UInt8)} {s' : RxRing}
    (hs : s.allocRxPacket slot answer = some s') : s'.Informed := by
  obtain ⟨memory, rfl⟩ := allocRxPacket_eq_some hs
  exact h

theorem Informed.rxProcess (h : s.Informed) (answers : ℕ → Option (List UInt8)) :
    (rxProcess s answers).Informed := by
  refine rxTurns_invariant ?_ ?_ _ h
  · intro s hs _
    exact hs.takeFrame s.tail
  · intro s s' answer hs _ _ halloc
    have hfilled := hs.alloc halloc
    exact hfilled

theorem Informed.reinit (h : s.Informed) (answers : ℕ → Option (List UInt8)) :
    (s.reinit answers).Informed := by
  refine reinit_invariant ?_ ?_ ?_ answers h
  · intro s s' slot answer hs _ _ halloc
    exact hs.alloc halloc
  · intro s slot number hs _ _
    exact hs
  · intro s hs
    exact hs

theorem Informed.rxFill (h : s.Informed) {answers : ℕ → Option (List UInt8)} {slots : List ℕ}
    {s' : RxRing} (hs : rxFill s answers slots = some s') : s'.Informed := by
  induction slots generalizing s with
  | nil =>
    obtain rfl := Option.some.inj hs
    exact h
  | cons slot slots ih =>
    rw [Gem2.rxFill] at hs
    cases halloc : s.allocRxPacket slot (answers slot) with
    | none =>
      rw [halloc] at hs
      contradiction
    | some s'' =>
      rw [halloc] at hs
      exact ih (h.alloc halloc) hs

end RxRing

namespace Link

variable {l : Link}

theorem informed_irqHandler (h : l.rx.Informed) (isr : UInt32)
    (answers : ℕ → Option (List UInt8)) : (l.irqHandler isr answers).rx.Informed := by
  rw [irqHandler]
  dsimp only
  split
  · split
    · exact h.rxProcess answers
    · exact h
  · split
    · exact h.rxProcess answers
    · exact h

theorem informed_step (h : l.rx.Informed) (op : Op) : (l.step op).rx.Informed := by
  cases op with
  | send r => exact h
  | deferredProcessing => exact h
  | irq isr answers => exact informed_irqHandler h isr answers
  | setTraceActive active => exact h
  | pollTx answers =>
    rw [step, pollTx]
    dsimp only
    split
    · exact h
    · exact h
    · exact h.reinit answers
  | pollRx =>
    rw [step, pollRx]
    dsimp only
    split <;> exact h
  | pollLink answers =>
    rw [step, pollLink]
    dsimp only
    split
    · exact h
    · exact h.reinit answers
  | transmit =>
    rw [step, transmit]
    split <;> exact h
  | receive pad frame flags =>
    rw [step, receive]
    dsimp only
    split <;> exact h

theorem run_informed {answers : ℕ → Option (List UInt8)} (hl : start answers = some l)
    (ops : List Op) : (l.run ops).rx.Informed := by
  refine run_invariant (P := fun l => l.rx.Informed) (fun _ op h => informed_step h op) ops ?_
  obtain ⟨rx, hrx, rfl⟩ := Option.map_eq_some_iff.mp hl
  have hcreated : RxRing.created.Informed := rfl
  exact hcreated.rxFill hrx

end Link

/-! ### Where a request goes -/

/-- Where a request goes, from the messages received. -/
def addressFor (messages : List ArpEntry) (r : Request) : Option (UInt32 × UInt32) :=
  let given := (r.physicalAddressMsw, r.physicalAddressLsw)
  if etherType r = NX_ETHERNET_IP then
    match remembered messages (word32 r.packet.data 16) with
    | some e => some (e.msw, e.lsw)
    | none => if given.1 > 0xffff ∨ (given.1 = 0 ∧ given.2 = 0) then none else some given
  else some given

/-- A request for an IPv4 address goes where the messages received say; only when they say
nothing it goes where NetX says, and not at all when that cannot be an address. -/
theorem Link.run_destination {answers : ℕ → Option (List UInt8)} {l : Link}
    (hl : start answers = some l) (ops : List Op) {r : Request} (hr : r.Valid) :
    destination (l.run ops).rx.arp r (r.packet.retreat NX_ETHERNET_SIZE).data =
      addressFor ((l.run ops).rx.handed.filterMap taught) r := by
  have hinformed := run_informed hl ops
  rw [RxRing.Informed] at hinformed
  rw [destination, addressFor, hr.word32_retreat, hinformed, arpLookup_learned]
  cases remembered ((l.run ops).rx.handed.filterMap taught) (word32 r.packet.data 16) <;> rfl

/-- The ARP message of a neighbour. -/
def arpMessage (host : UInt8) : List UInt8 :=
  [0, 1, 8, 0, 6, 4, 0, 2, 0, 10, 53, 0, 1, host, 10, 0, 0, host, 0, 10, 53, 0, 1, 2, 10, 0, 0, 1]

/-- Five neighbours send a message. The fifth takes the place of the first, which is forgotten. -/
theorem Link.run_destination_frame :
    let ops := [11, 12, 13, 14, 15].map (fun host =>
      Op.receive (0, 0) (frameFrom host 6 (arpMessage host)) 0) ++ [.irq 2 fun _ => some []]
    let sent := fun host => destination (fresh.run ops).rx.arp (ipRequest 3 host)
      ((ipRequest 3 host).packet.retreat NX_ETHERNET_SIZE).data
    sent 11 = none ∧ sent 12 = some (10, 0x3500010c) ∧ sent 13 = some (10, 0x3500010d) ∧
      sent 14 = some (10, 0x3500010e) ∧ sent 15 = some (10, 0x3500010f) := by
  intro ops sent
  have hsent : ∀ host, sent host =
      addressFor ((fresh.run ops).rx.handed.filterMap taught) (ipRequest 3 host) := fun host =>
    run_destination start_fresh ops (ipRequest_valid 3 host)
  have hmessages : (fresh.run ops).rx.handed.filterMap taught =
      [11, 12, 13, 14, 15].map fun host => arpSender (arpMessage host) := by decide +kernel
  simp only [hsent, hmessages]
  decide +kernel

end Gem2
