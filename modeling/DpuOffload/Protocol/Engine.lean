import DpuOffload.Cache.Revoke

/-!
# An engine and one of its groups

What an engine, on an SP or on a host, does about one group: it receives messages
about the group, its own sends complete, and on a host the application asks to join
or to leave the group. `handle` runs the callback that belongs to an event on the
slot of the group; `Engine.step` does so and keeps what has been emitted.

A send to the local ranks is complete when the callback of its meta-event runs,
which may be any time after it was posted: `cacheSent` and `revokeSent` are events
of their own, enabled while more sends were posted than have completed.
-/

namespace DpuOffload

/-- An event about the group. -/
inductive Event where
  /-- An SP gets an add message of a local rank. -/
  | addGroupRank (clientId : ℕ) (msg : GroupAddMsg)
  /-- A batch of entries from an SP. -/
  | peerCacheEntries (spGid : ℕ) (batch : List PeerCacheEntry)
  /-- An SP gets the revoke message of a local rank. -/
  | revokeFromRank (info : RankInfo)
  /-- A revoke message from an SP; on a host it is the final one. -/
  | revokeFromSp (msg : GroupRevokeMsgFromSp)
  /-- On an SP, the sends of the cache to the local ranks are complete. -/
  | cacheSent
  /-- On an SP, the sends of the final revoke to the local ranks are complete. -/
  | revokeSent
  /-- On a host, the application asks to join. -/
  | requestAdd (msg : GroupAddMsg)
  /-- On a host, the application asks to leave. -/
  | requestRevoke (info : RankInfo)
  deriving DecidableEq

/-- The slot of the group, and what the callback emitted. -/
abbrev Handled := Option GroupCache × List Effect

/-- What a callback leaves. -/
def GpState.handled (s : GpState) : Handled := (some s.gp, s.out)

/-- The callback that belongs to an event. -/
def handle (ctx : GpCtx) (slot : Option GroupCache) : Event → Handled
  | .addGroupRank c m => doAddGroupRankRecvCb ctx slot c m
  | .peerCacheEntries sp batch => (peerCacheEntriesRecvCb ctx slot sp batch).handled
  | .revokeFromRank info => handleRevokeGroupRankThroughRankInfo ctx slot info
  | .revokeFromSp m => (handleRevokeGroupRankThroughListRanks ctx slot m).handled
  | .cacheSent => slot.elim (slot, []) fun g => (groupCacheSendToLocalRanksCb g).handled
  | .revokeSent => slot.elim (slot, []) fun g => (revokeSendToHostCb ctx g).handled
  | .requestAdd m => (sendAddGroupRankRequest ctx slot m).handled
  | .requestRevoke info => (sendRevokeGroupRankRequestThroughRankInfo ctx slot info).handled

/-- Is this the sending of the cache to the local ranks? -/
def Effect.isCacheToRanks : Effect → Bool
  | .cacheToRanks _ => true
  | _ => false

/-- Is this the sending of the final revoke to the local ranks? -/
def Effect.isRevokeToRanks : Effect → Bool
  | .revokeToRanks _ _ => true
  | _ => false

/-- An engine, as far as one group goes. -/
structure Engine where
  /-- The slot of the group in the cache. -/
  slot : Option GroupCache
  /-- All that has been emitted, in order. -/
  log : List Effect
  /-- How many sends of the cache have completed. -/
  cacheDone : ℕ
  /-- How many sends of the final revoke have completed. -/
  revokeDone : ℕ
  /-- The events so far, in order. -/
  seen : List Event

/-- An engine that has not heard of the group. -/
def Engine.init : Engine where
  slot := none
  log := []
  cacheDone := 0
  revokeDone := 0
  seen := []

/-- The group cache; one not in the table yet is as the pool will hand it out. -/
def Engine.gp (e : Engine) : GroupCache := e.slot.getD newGroupCache

/-- Can the event happen here? -/
def Engine.enabled (ctx : GpCtx) (e : Engine) : Event → Bool
  | .addGroupRank _ _ => ctx.onDpu
  | .peerCacheEntries _ _ => true
  | .revokeFromRank _ => ctx.onDpu
  | .revokeFromSp _ => true
  | .cacheSent => ctx.onDpu && e.cacheDone < e.log.countP Effect.isCacheToRanks
  | .revokeSent => ctx.onDpu && e.revokeDone < e.log.countP Effect.isRevokeToRanks
  | .requestAdd _ => !ctx.onDpu
  | .requestRevoke _ => !ctx.onDpu

/-- The engine takes an event. -/
def Engine.step (ctx : GpCtx) (e : Engine) (ev : Event) : Option Engine :=
  if e.enabled ctx ev then
    let r := handle ctx e.slot ev
    some
      { slot := r.1
        log := e.log ++ r.2
        cacheDone := if ev = .cacheSent then e.cacheDone + 1 else e.cacheDone
        revokeDone := if ev = .revokeSent then e.revokeDone + 1 else e.revokeDone
        seen := e.seen ++ [ev] }
  else none

theorem Engine.step_eq_some {ctx : GpCtx} {e e' : Engine} {ev : Event} (h : e.step ctx ev = some e') :
    e.enabled ctx ev = true ∧ e'.slot = (handle ctx e.slot ev).1 ∧ e'.log = e.log ++ (handle ctx e.slot ev).2 ∧
      e'.seen = e.seen ++ [ev] := by
  unfold Engine.step at h
  split at h
  · cases h
    exact ⟨‹_›, rfl, rfl, rfl⟩
  · cases h

end DpuOffload
