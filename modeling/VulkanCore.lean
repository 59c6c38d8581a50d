import VulkanCore.Common.Buffer
import VulkanCore.Common.Memory
import VulkanCore.Common.Crypto
import VulkanCore.Transaction
import VulkanCore.Core.Merkle
import VulkanCore.Core.Block
import VulkanCore.Core.BlockCodec
import VulkanCore.Core.BlockTransactions
import VulkanCore.Core.MerkleHeap
import VulkanCore.Verif.MerkleRoot
import VulkanCore.Verif.MerkleBinding
import VulkanCore.Verif.WellFormed
import VulkanCore.Verif.ValidBlock
import VulkanCore.Verif.BlockHash
import VulkanCore.Verif.BlockMerkle
import VulkanCore.Verif.MerkleCommitment
import VulkanCore.Verif.BlockCodec
import VulkanCore.Verif.BlockLifecycle
import VulkanCore.Verif.BlockSize
import VulkanCore.Verif.BlockTransactions
import VulkanCore.Verif.MerkleHeap
import VulkanCore.Verif.BlockQueries
