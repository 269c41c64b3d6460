import RaftRs.Conf.Retain

namespace RaftRs

open Library

namespace Changer

variable {cfg : Configuration} {prs : IncrChangeMap} {tracker : ProgressTracker} {error : RaftError}

end Changer

end RaftRs
