/-! # Bytes

Everything that crosses a stream or lies in the store is a list of bytes. -/

namespace Depot

abbrev Bytes := List UInt8

end Depot
