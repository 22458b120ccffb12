import DroidPlatform.Resolv.CacheSoundness

/-!
# Answers that are not stored

Not every add makes an entry: the query may be of a kind the cache does not know, or stored
already, the answer may have no time to live, or there may be no memory.  One expects such a call to
leave the cache alone.  But `_resolv_cache_add` makes room in a full cache before it looks at the
answer, so that an answer that cannot be kept costs the entry that was used least recently.
-/

namespace Droid.Resolv

open Cache.Holds

end Droid.Resolv
