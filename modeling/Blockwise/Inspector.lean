import Blockwise.Notice
/-!
# Inspectors

An inspector is shown the digest of every block right after the message layer
accepted it.  It keeps what it makes of the digests, and may have something to
tell; it has no say in what is sent.

* `Unit` — an inspector that makes nothing of the digests
* `Array Digest` — collects them
* `DigestLog` — tells of each
-/

namespace Blockwise

/-- What is shown the digest of every block that was accepted. -/
class Inspector (ι : Type) where
  /-- The inspector after it was shown a digest. -/
  observe : Digest → ι → ι
  /-- What there is to be told of a digest. -/
  notices : Digest → Array Notice := fun _ => #[]

instance : Inspector Unit where
  observe _ _ := ()

instance : Inspector (Array Digest) where
  observe digest digests := digests.push digest

/-- An inspector that keeps nothing and tells of every digest. -/
structure DigestLog where
deriving DecidableEq, Inhabited

instance : Inspector DigestLog where
  observe _ l := l
  notices digest := #[.inspected digest]

end Blockwise
